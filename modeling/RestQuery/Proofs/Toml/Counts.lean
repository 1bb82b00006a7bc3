import RestQuery.Proofs.Toml.Strings
import RestQuery.Toml.Statement

/-!
# Written counts are read back

A count is written in decimal digits up to the end of its line. It is read as an
integer (`integer_toDigits`) and as nothing else: a moment wants a mark after its
first digits, a float a point, an exponent or a name.
-/

namespace RestQuery.Toml

open Scan
open Text (isDigit_toDigits toDigits_eq_cons)

variable {c : Char} {ds : List Char} {n : Nat}

-- ---------------------------------------------------------------------------
-- Digits
-- ---------------------------------------------------------------------------

theorem digit_of_isDigit (h : c.isDigit) (rest : List Char) :
    digit 10 (c :: rest) = some (c.toNat - '0'.toNat, rest) := by
  refine digit_cons ?_ rest
  have hle : '0' ≤ c ∧ c ≤ '9' := by
    simp only [Char.isDigit, Bool.and_eq_true, decide_eq_true_eq] at h
    exact h
  have hlt : c.toNat - '0'.toNat < 10 := by
    have hnine : c.toNat ≤ 57 := hle.2
    have hzero : '0'.toNat = 48 := rfl
    omega
  simp only [digitOf?, if_pos hle, Option.filter_some, hlt, decide_true, if_true]

theorem many_digits (h : ∀ c ∈ ds, c.isDigit) (rest : List Char) :
    many (digit 10 <|> (char '_' *> digit 10)) (ds ++ '\n' :: rest) =
      some (ds.map fun c => c.toNat - '0'.toNat, '\n' :: rest) := by
  induction ds with
  | nil => exact many_of_none rfl
  | cons c ds ih =>
    rw [List.forall_mem_cons] at h
    have hdigit := orElse_left (char '_' *> digit 10)
      (digit_of_isDigit h.1 (ds ++ '\n' :: rest))
    rw [List.cons_append, many_of_some hdigit (Nat.lt_succ_self _), ih h.2]
    rfl

theorem digits_line (hne : ds ≠ []) (h : ∀ c ∈ ds, c.isDigit) (rest : List Char) :
    digits 10 (ds ++ '\n' :: rest) = some (ds.map fun c => c.toNat - '0'.toNat, '\n' :: rest) := by
  obtain ⟨c, ds, rfl⟩ := List.exists_cons_of_ne_nil hne
  rw [List.forall_mem_cons] at h
  rw [List.cons_append, digits, bind_some (digit_of_isDigit h.1 _), bind_some (many_digits h.2 rest)]
  rfl

-- ---------------------------------------------------------------------------
-- Integers
-- ---------------------------------------------------------------------------

theorem toDigits_head {n : Nat} (h : n ≠ 0) : (Nat.toDigits 10 n).head? ≠ some '0' := by
  induction n using Nat.strongRecOn with
  | _ n ih =>
    rw [Nat.toDigits_eq_if (by simp)]
    split
    next =>
      intro hzero
      exact h (Nat.digitChar_eq_zero.mp (Option.some.inj hzero))
    next hge =>
      rw [List.head?_append, Option.or_of_isSome (by simp [Nat.toDigits_ne_nil])]
      exact ih (n / 10) (by omega) (by omega)

theorem ofDigits_toDigits (n : Nat) :
    Text.ofDigits 10 ((Nat.toDigits 10 n).map fun c => c.toNat - '0'.toNat) = n := by
  have hchars : Text.ofDigits 10 ((Nat.toDigits 10 n).map fun c => c.toNat - '0'.toNat) =
      Nat.ofDigitChars 10 (Nat.toDigits 10 n) 0 := by
    simp [Text.ofDigits, Nat.ofDigitChars, List.foldl_map, Nat.mul_comm]
  rw [hchars, Nat.ofDigitChars_toDigits (by simp) (by simp)]

theorem wholeDigits_toDigits (n : Nat) (rest : List Char) :
    wholeDigits (Nat.toDigits 10 n ++ '\n' :: rest) =
      some ((Nat.toDigits 10 n).map fun c => c.toNat - '0'.toNat, '\n' :: rest) := by
  by_cases hn : n = 0
  · rw [hn]
    rfl
  · obtain ⟨c, ds, hds, -⟩ := toDigits_eq_cons n
    have hc : c ≠ '0' := by
      rintro rfl
      exact toDigits_head hn (by rw [hds]; rfl)
    have hzero : (char '0' *> pure [0]) (Nat.toDigits 10 n ++ '\n' :: rest) = none := by
      rw [hds]
      exact seqRight_none (char_ne hc _) _
    rw [wholeDigits, orElse_right _ hzero]
    exact digits_line Nat.toDigits_ne_nil (isDigit_toDigits n) rest

theorem sign_toDigits (n : Nat) (rest : List Char) :
    sign (Nat.toDigits 10 n ++ rest) = some (false, Nat.toDigits 10 n ++ rest) := by
  obtain ⟨c, ds, hds, hc⟩ := toDigits_eq_cons n
  have hminus : c ≠ '-' := by rintro rfl; simp at hc
  have hplus : c ≠ '+' := by rintro rfl; simp at hc
  rw [hds, List.cons_append, sign, orElse_right, orElse_right]
  · rfl
  · exact seqRight_none (char_ne hplus _) _
  · exact seqRight_none (char_ne hminus _) _

theorem decimalInteger_toDigits (n : Nat) (rest : List Char) :
    decimalInteger (Nat.toDigits 10 n ++ '\n' :: rest) = some ((n : Int), '\n' :: rest) := by
  rw [decimalInteger, bind_some (sign_toDigits n _), bind_some (wholeDigits_toDigits n rest),
    ofDigits_toDigits]
  rfl

theorem basedInteger_toDigits {letter : Char} (h : letter ≠ '\n') (base n : Nat)
    (rest : List Char) : basedInteger letter base (Nat.toDigits 10 n ++ '\n' :: rest) = none := by
  have hword : word ['0', letter] (Nat.toDigits 10 n ++ '\n' :: rest) = none := by
    by_cases hn : n = 0
    · rw [hn]
      exact (word_cons '0' [letter] ('\n' :: rest)).trans (word_ne h.symm [] rest)
    · obtain ⟨c, ds, hds, -⟩ := toDigits_eq_cons n
      have hc : c ≠ '0' := by
        rintro rfl
        exact toDigits_head hn (by rw [hds]; rfl)
      rw [hds, List.cons_append, word_ne hc]
  exact bind_none hword _

theorem integer_toDigits (h : n < integerBound) (rest : List Char) :
    integer (Nat.toDigits 10 n ++ '\n' :: rest) = some ((n : Int), '\n' :: rest) := by
  have hrange : inRange? (n : Int) = some (n : Int) := if_pos (by omega)
  refine filterMap_some ?_ hrange
  rw [orElse_right _ (basedInteger_toDigits (by simp) 16 n rest),
    orElse_right _ (basedInteger_toDigits (by simp) 8 n rest),
    orElse_right _ (basedInteger_toDigits (by simp) 2 n rest), decimalInteger_toDigits]

-- ---------------------------------------------------------------------------
-- Moments and floats
-- ---------------------------------------------------------------------------

theorem times_leaves {width : Nat} {found : List Nat} {after rest : List Char}
    (h : ∀ c ∈ ds, c.isDigit)
    (htimes : times width (digit 10) (ds ++ '\n' :: rest) = some (found, after)) :
    ∃ left, after = left ++ '\n' :: rest ∧ ∀ c ∈ left, c.isDigit := by
  induction width generalizing ds found with
  | zero =>
    cases htimes
    exact ⟨ds, rfl, h⟩
  | succ width ih =>
    cases ds with
    | nil => cases htimes
    | cons c ds =>
      rw [List.forall_mem_cons] at h
      rw [times, List.cons_append, bind_some (digit_of_isDigit h.1 _), run_bind] at htimes
      obtain ⟨⟨more, left⟩, hmore, hleft⟩ := Option.bind_eq_some_iff.mp htimes
      cases hleft
      exact ih h.2 hmore

/-- No mark follows the digits of a count, however many of them are taken. -/
theorem fixed_mark {α : Type} {width low high : Nat} {mark : Char} {next : Nat → Scan α}
    (h : ∀ c ∈ ds, c.isDigit) (hmark : ¬mark.isDigit) (hbreak : mark ≠ '\n') (rest : List Char) :
    (do let n ← fixed width low high; char mark; next n) (ds ++ '\n' :: rest) = none := by
  cases hfixed : fixed width low high (ds ++ '\n' :: rest) with
  | none => exact bind_none hfixed _
  | some r =>
    obtain ⟨n, after⟩ := r
    obtain ⟨found, htimes, -⟩ := filterMap_ok hfixed
    obtain ⟨left, rfl, hleft⟩ := times_leaves h htimes
    rw [bind_some hfixed]
    cases left with
    | nil => exact bind_none (char_ne hbreak.symm rest) _
    | cons c left =>
      have hc : c ≠ mark := by
        rintro rfl
        exact hmark (hleft c List.mem_cons_self)
      exact bind_none (char_ne hc _) _

theorem moment_digits (h : ∀ c ∈ ds, c.isDigit) (rest : List Char) :
    moment (ds ++ '\n' :: rest) = none := by
  have hdate : date (ds ++ '\n' :: rest) = none := fixed_mark h (by simp) (by simp) rest
  have htime : time (ds ++ '\n' :: rest) = none := fixed_mark h (by simp) (by simp) rest
  rw [moment, orElse_right _ (bind_none hdate _), htime]

theorem float_toDigits (n : Nat) (rest : List Char) :
    float (Nat.toDigits 10 n ++ '\n' :: rest) = none := by
  have hdecimal : decimalFloat (Nat.toDigits 10 n ++ '\n' :: rest) = none := by
    rw [decimalFloat, bind_some (sign_toDigits n _), bind_some (wholeDigits_toDigits n rest)]
    rfl
  obtain ⟨c, ds, hds, hc⟩ := toDigits_eq_cons n
  have hinf : c ≠ 'i' := by rintro rfl; simp at hc
  have hnan : c ≠ 'n' := by rintro rfl; simp at hc
  rw [float, orElse_right _ hdecimal, specialFloat, bind_some (sign_toDigits n _), hds,
    List.cons_append, orElse_right _ (word_ne hinf _ _), word_ne hnan]

-- ---------------------------------------------------------------------------
-- Scalars
-- ---------------------------------------------------------------------------

theorem text_ne (hdouble : c ≠ '"') (hsingle : c ≠ '\'') (rest : List Char) :
    text (c :: rest) = none := by
  refine map_none ?_ String.ofList
  rw [orElse_right _ (multiline_ne hdouble rest), orElse_right _ (basic_ne hdouble rest),
    orElse_right _ (multiline_ne hsingle rest)]
  exact bind_none (char_ne hsingle rest) _

theorem scalar_toDigits (h : n < integerBound) (rest : List Char) :
    scalar (Nat.toDigits 10 n ++ '\n' :: rest) = some (.integer n, '\n' :: rest) := by
  have htext : (Scalar.text <$> text) (Nat.toDigits 10 n ++ '\n' :: rest) = none := by
    obtain ⟨c, ds, hds, hc⟩ := toDigits_eq_cons n
    have hdouble : c ≠ '"' := by rintro rfl; simp at hc
    have hsingle : c ≠ '\'' := by rintro rfl; simp at hc
    rw [hds]
    exact map_none (text_ne hdouble hsingle _) _
  have hmoment : (moment *> pure Scalar.other) (Nat.toDigits 10 n ++ '\n' :: rest) = none :=
    seqRight_none (moment_digits (isDigit_toDigits n) rest) _
  have hfloat : (float *> pure Scalar.other) (Nat.toDigits 10 n ++ '\n' :: rest) = none :=
    seqRight_none (float_toDigits n rest) _
  rw [scalar, orElse_right _ htext, orElse_right _ hmoment, orElse_right _ hfloat]
  exact orElse_left _ (map_some (integer_toDigits h rest) _)

end RestQuery.Toml

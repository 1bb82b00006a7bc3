import Mathlib.Data.List.TakeWhile
import RestQuery.Text.Numeral

/-!
# Counts as people type them

`Denotes text n` is the grammar of a count: white space, one `+` at most,
decimal digits of value `n`, white space. The reader of counts takes exactly
the texts that denote a number in range, and gives that number
(`count?_eq_some`).
-/

namespace RestQuery.Text

/-- Digits that denote a number, with what may stand around them. -/
inductive Denotes : List Char → Nat → Prop
  | mk {front sign digits back : List Char} (front_space : ∀ c ∈ front, isSpace c)
      (sign_plus : sign = [] ∨ sign = ['+']) (ne_nil : digits ≠ [])
      (isDigit : ∀ c ∈ digits, c.isDigit) (back_space : ∀ c ∈ back, isSpace c) :
      Denotes (front ++ (sign ++ digits) ++ back) (Nat.ofDigitChars 10 digits 0)

-- ---------------------------------------------------------------------------
-- Digits
-- ---------------------------------------------------------------------------

theorem isDigit_of_digit? {c : Char} {d : Nat} (h : digit? c = some d) : c.isDigit := by
  unfold digit? at h
  split at h
  · simpa [Char.isDigit, Char.le_def] using ‹_›
  · cases h

theorem isDigit_of_mapM_digit? {cs : List Char} {ds : List Nat} (h : cs.mapM digit? = some ds) :
    ∀ c ∈ cs, c.isDigit := by
  induction cs generalizing ds with
  | nil => simp
  | cons c cs ih =>
    simp only [List.mapM_cons, Option.bind_eq_bind, Option.bind_eq_some_iff] at h
    obtain ⟨d, hd, rest, hrest, -⟩ := h
    exact List.forall_mem_cons.mpr ⟨isDigit_of_digit? hd, ih hrest⟩

theorem natural?_eq_some {cs : List Char} {n : Nat} :
    natural? cs = some n ↔
      cs ≠ [] ∧ (∀ c ∈ cs, c.isDigit) ∧ Nat.ofDigitChars 10 cs 0 = n := by
  constructor
  · intro h
    have hne : cs ≠ [] := by
      rintro rfl
      simp [natural?] at h
    have hdigits : ∀ c ∈ cs, c.isDigit := by
      simp only [natural?, hne, if_false, Option.map_eq_some_iff] at h
      obtain ⟨ds, hds, -⟩ := h
      exact isDigit_of_mapM_digit? hds
    exact ⟨hne, hdigits, Option.some.inj ((natural?_of_isDigit hne hdigits).symm.trans h)⟩
  · rintro ⟨hne, hdigits, rfl⟩
    exact natural?_of_isDigit hne hdigits

theorem numeral?_eq_some {cs : List Char} {n : UInt64} :
    numeral? cs = some n ↔
      cs ≠ [] ∧ (∀ c ∈ cs, c.isDigit) ∧ Nat.ofDigitChars 10 cs 0 = n.toNat := by
  rw [← natural?_eq_some, numeral?]
  cases natural? cs with
  | none => simp
  | some m =>
    simp only [Option.some.injEq]
    split
    · rename_i hm
      rw [Option.some.injEq, ← UInt64.toNat_inj, UInt64.toNat_ofNat_of_lt' hm]
    · rename_i hm
      have hn : n.toNat < UInt64.size := n.toNat_lt
      simp
      omega

-- ---------------------------------------------------------------------------
-- White space and sign
-- ---------------------------------------------------------------------------

theorem isSpace_of_isDigit {c : Char} (h : c.isDigit) : isSpace c = false := by
  have hc : 48 ≤ c.toNat ∧ c.toNat ≤ 57 := by
    simpa [Char.isDigit, Char.le_def, UInt32.le_iff_toNat_le] using h
  simp [isSpace, spaceRuns]
  omega

theorem exists_strip (cs : List Char) :
    ∃ front back, cs = front ++ strip cs ++ back ∧
      (∀ c ∈ front, isSpace c) ∧ ∀ c ∈ back, isSpace c := by
  refine ⟨cs.takeWhile isSpace, endRun isSpace (cs.dropWhile isSpace), ?_, ?_, of_mem_endRun⟩
  · simp [strip, trim, List.append_assoc]
  · exact List.all_eq_true.mp List.all_takeWhile

theorem strip_padded {front cs back : List Char} (hfront : ∀ c ∈ front, isSpace c)
    (hcs : ∀ c ∈ cs, isSpace c = false) (hback : ∀ c ∈ back, isSpace c) :
    strip (front ++ cs ++ back) = cs := by
  have hdrop : (front ++ cs ++ back).dropWhile isSpace = (cs ++ back).dropWhile isSpace := by
    rw [List.append_assoc, List.dropWhile_append_of_pos hfront]
  rw [strip, trim, hdrop]
  cases cs with
  | nil => simp [List.dropWhile_eq_nil_iff.mpr hback]
  | cons c cs =>
    have hc : ¬isSpace c := by simp [hcs c List.mem_cons_self]
    rw [List.cons_append, List.dropWhile_cons_of_neg hc, ← List.cons_append,
      trimEnd_append_of_all hback]
    exact trimEnd_eq_self fun c hc => by simp [hcs c (List.mem_of_getLast? hc)]

theorem exists_unsigned (cs : List Char) :
    ∃ sign, (sign = [] ∨ sign = ['+']) ∧ cs = sign ++ unsigned cs := by
  unfold unsigned
  split
  · exact ⟨['+'], .inr rfl, rfl⟩
  · exact ⟨[], .inl rfl, rfl⟩

theorem unsigned_of_isDigit {sign digits : List Char} (hsign : sign = [] ∨ sign = ['+'])
    (h : ∀ c ∈ digits, c.isDigit) : unsigned (sign ++ digits) = digits := by
  rcases hsign with rfl | rfl
  · rw [List.nil_append]
    unfold unsigned
    split
    · exact absurd (h '+' List.mem_cons_self) (by decide)
    · rfl
  · rfl

-- ---------------------------------------------------------------------------
-- Counts
-- ---------------------------------------------------------------------------

theorem count?_eq_some {text : String} {n : UInt64} :
    count? text = some n ↔ Denotes text.toList n.toNat := by
  rw [count?, numeral?_eq_some]
  constructor
  · rintro ⟨hne, hdigits, hn⟩
    obtain ⟨front, back, htext, hfront, hback⟩ := exists_strip text.toList
    obtain ⟨sign, hsign, hstrip⟩ := exists_unsigned (strip text.toList)
    rw [htext, hstrip, ← hn]
    exact .mk hfront hsign hne hdigits hback
  · intro h
    generalize htext : text.toList = cs at h
    generalize hn : n.toNat = m at h
    cases h with
    | @mk front sign digits back hfront hsign hne hdigits hback =>
      -- neither the sign nor a digit is white space, so stripping stops at them
      have hspace : ∀ c ∈ sign ++ digits, isSpace c = false := by
        intro c hc
        rcases List.mem_append.mp hc with hc | hc
        · rcases hsign with rfl | rfl
          · cases hc
          · obtain rfl := List.mem_singleton.mp hc
            decide
        · exact isSpace_of_isDigit (hdigits c hc)
      rw [strip_padded hfront hspace hback, unsigned_of_isDigit hsign hdigits]
      exact ⟨hne, hdigits, rfl⟩

example : count? " +007\u00A0" = some 7 ∧ count? "18446744073709551616" = none := by decide

theorem count?_decimal (n : UInt64) : count? (decimal n) = some n := by
  refine count?_eq_some.mpr ?_
  have hdigits : (decimal n).toList = [] ++ ([] ++ Nat.toDigits 10 n.toNat) ++ [] := by
    simp [decimal]
  have hn : Nat.ofDigitChars 10 (Nat.toDigits 10 n.toNat) 0 = n.toNat :=
    Nat.ofDigitChars_toDigits (by decide) (by decide)
  rw [hdigits]
  conv => rhs; rw [← hn]
  exact .mk (by simp) (.inl rfl) Nat.toDigits_ne_nil (isDigit_toDigits _) (by simp)

end RestQuery.Text

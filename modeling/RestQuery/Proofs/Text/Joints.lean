import RestQuery.Proofs.Text.Encoding

/-!
# Decoding at a comma

A comma is neither a digit of an escape nor part of a longer UTF-8 sequence, so
it ends whatever stands before it, however that is cut off: decoding a text
decodes what stands before and after the comma (`decodeComponent_comma`), and
texts that are joined by commas are decoded one by one
(`decodeComponent_intercalate`).
-/

namespace RestQuery.Text

-- ---------------------------------------------------------------------------
-- Escapes
-- ---------------------------------------------------------------------------

theorem escaped?_of_high {b high low : UInt8} (h : hexDigit? high = none) :
    escaped? b high low = none := by
  simp [escaped?, h]

theorem escaped?_of_low {b high low : UInt8} (h : hexDigit? low = none) :
    escaped? b high low = none := by
  unfold escaped?
  cases hexDigit? high <;> simp [h]

/-- No escape runs over a byte that is no digit and starts none. -/
theorem unescape_append {mark : UInt8} (hmark : hexDigit? mark = none) (hpercent : mark ≠ 0x25)
    (bytes rest : List UInt8) :
    unescape (bytes ++ mark :: rest) = unescape bytes ++ plain mark :: unescape rest := by
  fun_induction unescape bytes with
  | case1 => simp [unescape_cons_of_ne hpercent]
  | case2 b high low bytes e he ih => simp [unescape, he, ih]
  | case3 b high low bytes he ih => simpa [unescape, he] using ih
  | case4 b bytes hshort ih =>
    -- an escape that is cut off: the mark is among the two bytes after `b`
    cases bytes with
    | nil =>
      cases rest with
      | nil => rfl
      | cons r rest => simpa [unescape, escaped?_of_high hmark] using ih
    | cons high bytes =>
      cases bytes with
      | nil => simpa [unescape, escaped?_of_low hmark] using ih
      | cons low bytes => exact absurd rfl (hshort high low bytes)

-- ---------------------------------------------------------------------------
-- Sequences
-- ---------------------------------------------------------------------------

/-- Whatever is under way goes on with bytes only that start no character. -/
def Continuing (s? : Option Sequence) : Prop :=
  ∀ s, s? = some s → 0x80 ≤ s.low ∧ s.high ≤ 0xBF

theorem continuing_none : Continuing none := nofun

theorem continuing_lead (b : UInt8) : Continuing (lead b).2 := by
  intro s h
  unfold lead at h
  split at h
  · simp at h
  split at h
  · simp at h
  split at h
  · simp only [Option.some.injEq] at h
    simp [← h]
  split at h
  · simp only [Option.some.injEq] at h
    simp only [← h]
    constructor <;> split <;> decide
  split at h
  · simp only [Option.some.injEq] at h
    simp only [← h]
    constructor <;> split <;> decide
  · simp at h

theorem continuing_step (s? : Option Sequence) (b : UInt8) : Continuing (step s? b).2 := by
  cases s? with
  | none => exact continuing_lead b
  | some current =>
    simp only [step]
    split
    · split
      · exact continuing_none
      · intro s h
        obtain rfl : current.push b = s := Option.some.inj h
        exact ⟨UInt8.le_refl _, UInt8.le_refl _⟩
    · exact continuing_lead b

/-- A byte that goes on with no sequence is read as if nothing stood before it. -/
theorem scanFrom_start {s? : Option Sequence} (hs : Continuing s?) {b : UInt8}
    (hb : b ≤ 0x7F ∨ 0xC0 ≤ b) (bytes rest : List UInt8) :
    scanFrom s? (bytes ++ b :: rest) = scanFrom s? bytes ++ scan (b :: rest) := by
  induction bytes generalizing s? with
  | nil =>
    cases s? with
    | none => rfl
    | some s =>
      have hout : ¬(s.low ≤ b ∧ b ≤ s.high) := by
        rintro ⟨hlow, hhigh⟩
        rcases hb with hb | hb
        · exact absurd (UInt8.le_trans (hs s rfl).1 (UInt8.le_trans hlow hb)) (by decide)
        · exact absurd (UInt8.le_trans hb (UInt8.le_trans hhigh (hs s rfl).2)) (by decide)
      simp [scanFrom, scan, step, hout]
  | cons c bytes ih => simp [ih (continuing_step s? c)]

theorem decodeLossy_ascii {b : UInt8} (hb : b ≤ 0x7F) (bytes rest : List UInt8) :
    decodeLossy (bytes ++ b :: rest) =
      decodeLossy bytes ++ Char.ofNat b.toNat :: decodeLossy rest := by
  have hstart : scan (bytes ++ b :: rest) = scan bytes ++ scan (b :: rest) :=
    scanFrom_start continuing_none (.inl hb) bytes rest
  have hscan : scan (b :: rest) = some (Char.ofNat b.toNat) :: scan rest := by
    simp [scan, step_ascii hb]
  simp [decodeLossy, hstart, hscan]

-- a sequence that stops short is one ill-formed part
example : decodeLossy [0xE2, 0x82, 0x62] = [replacement, 'b'] := by decide

-- ---------------------------------------------------------------------------
-- Components
-- ---------------------------------------------------------------------------

theorem decodeComponent_comma (before after : List Char) :
    decodeComponent (before ++ ',' :: after) =
      decodeComponent before ++ ',' :: decodeComponent after := by
  have hutf8 : utf8 (before ++ ',' :: after) = utf8 before ++ 0x2C :: utf8 after := by
    rw [utf8_append]
    rfl
  rw [decodeComponent, hutf8, unescape_append (by decide) (by decide)]
  exact decodeLossy_ascii (by decide) _ _

theorem decodeComponent_intercalate (raws : List (List Char)) :
    decodeComponent ([','].intercalate raws) = [','].intercalate (raws.map decodeComponent) := by
  induction raws with
  | nil => rfl
  | cons raw raws ih =>
    cases raws with
    | nil => simp
    | cons next raws => simpa [decodeComponent_comma] using ih

end RestQuery.Text

import Mathlib.Tactic.IntervalCases
import RestQuery.Text.Percent
import RestQuery.Text.Utf8.Lemmas

/-!
# Percent encodings of a text

`Encodes marks cs raw` says that `raw` is one of the many ways to write the
text `cs`: a character stands for itself unless it is one of the `marks`, or it
is written byte by byte as escapes, and a space may be a `+`. Decoding undoes
every one of them (`decodeComponent_encodes`). `encode` writes the shortest.
-/

namespace RestQuery.Text

-- ---------------------------------------------------------------------------
-- Escapes
-- ---------------------------------------------------------------------------

def IsHexDigit (n : Nat) (c : Char) : Prop :=
  "0123456789abcdef".toList[n]? = some c ∨ "0123456789ABCDEF".toList[n]? = some c

instance (n : Nat) (c : Char) : Decidable (IsHexDigit n c) := by unfold IsHexDigit; infer_instance

inductive Escapes : List UInt8 → List Char → Prop
  | nil : Escapes [] []
  | cons {b : UInt8} {bytes : List UInt8} {high low : Char} {raw : List Char} :
      IsHexDigit (b.toNat / 16) high → IsHexDigit (b.toNat % 16) low → Escapes bytes raw →
      Escapes (b :: bytes) ('%' :: high :: low :: raw)

inductive Spells (marks : List Char) : Char → List Char → Prop
  | itself {c : Char} : c ∉ marks → Spells marks c [c]
  | escaped {c : Char} {raw : List Char} : Escapes (utf8 [c]) raw → Spells marks c raw
  | plus : Spells marks ' ' ['+']

/-- The ways to write a text, each character in a way of its own. -/
inductive Encodes (marks : List Char) : List Char → List Char → Prop
  | nil : Encodes marks [] []
  | cons {c : Char} {cs piece raw : List Char} : Spells marks c piece → Encodes marks cs raw →
      Encodes marks (c :: cs) (piece ++ raw)

theorem isHexDigit_lt {n : Nat} {c : Char} (h : IsHexDigit n c) : n < 16 := by
  rcases h with h | h <;> exact (List.getElem?_eq_some_iff.mp h).1

theorem hexDigit?_of_isHexDigit {n : Nat} {c : Char} (h : IsHexDigit n c) :
    String.utf8EncodeChar c = [UInt8.ofNat c.toNat] ∧
      hexDigit? (UInt8.ofNat c.toNat) = some (UInt8.ofNat n) := by
  have hn := isHexDigit_lt h
  interval_cases n <;> rcases h with h | h <;> cases h <;> decide

theorem isHexDigit_ne {n : Nat} {c : Char} (h : IsHexDigit n c) : c ≠ '&' ∧ c ≠ '=' := by
  have hn := isHexDigit_lt h
  interval_cases n <;> rcases h with h | h <;> cases h <;> decide

theorem byte_of_halves (b : UInt8) :
    UInt8.ofNat (b.toNat / 16) * 16 + UInt8.ofNat (b.toNat % 16) = b := by
  have := b.toNat_lt
  apply UInt8.toNat_inj.mp
  rw [UInt8.toNat_add, UInt8.toNat_mul, UInt8.toNat_ofNat', UInt8.toNat_ofNat',
    show (16 : UInt8).toNat = 16 from rfl]
  omega

/-- Both digits are single bytes, so the decoder sees an escape in one step. -/
theorem unescape_escape {h l : Nat} {high low : Char} (hhigh : IsHexDigit h high)
    (hlow : IsHexDigit l low) (raw : List Char) (rest : List UInt8) :
    unescape (utf8 ('%' :: high :: low :: raw) ++ rest) =
      (UInt8.ofNat h * 16 + UInt8.ofNat l) :: unescape (utf8 raw ++ rest) := by
  obtain ⟨highByte, highValue⟩ := hexDigit?_of_isHexDigit hhigh
  obtain ⟨lowByte, lowValue⟩ := hexDigit?_of_isHexDigit hlow
  have hraw : utf8 ('%' :: high :: low :: raw) ++ rest =
      0x25 :: UInt8.ofNat high.toNat :: UInt8.ofNat low.toNat :: (utf8 raw ++ rest) := by
    simp only [utf8, List.flatMap_cons, highByte, lowByte]
    rfl
  rw [hraw, unescape, escaped?, if_pos rfl, highValue, lowValue]

theorem unescape_escapes {bytes : List UInt8} {raw : List Char} (h : Escapes bytes raw)
    (rest : List UInt8) : unescape (utf8 raw ++ rest) = bytes ++ unescape rest := by
  induction h with
  | nil => rfl
  | @cons b bytes high low raw hhigh hlow _ ih =>
    rw [unescape_escape hhigh hlow, byte_of_halves]
    exact congrArg (b :: ·) ih

-- ---------------------------------------------------------------------------
-- Characters that stand for themselves
-- ---------------------------------------------------------------------------

theorem toNat_of_mem_utf8EncodeChar {c : Char} {b : UInt8} (h : b ∈ String.utf8EncodeChar c)
    (hb : b.toNat < 0x80) : b.toNat = c.toNat := by
  have valid : c.val.toNat < 0x110000 := by
    have : c.val.toNat < 0xD800 ∨ 0xDFFF < c.val.toNat ∧ c.val.toNat < 0x110000 := c.valid
    omega
  change b.toNat = c.val.toNat
  unfold String.utf8EncodeChar at h
  generalize c.val.toNat = v at h valid
  dsimp only at h
  have byte {n : Nat} (hn : n < 256) : (UInt8.ofNat n).toNat = n := by
    rw [UInt8.toNat_ofNat']
    omega
  split at h
  · obtain rfl := List.mem_singleton.mp h
    exact byte (by omega)
  -- every byte of a longer form is at least 0x80
  · have high {n : Nat} (low : 0x80 ≤ n) (hn : n < 256) : ¬(UInt8.ofNat n).toNat < 0x80 := by
      rw [byte hn]
      omega
    exfalso
    split at h
    · simp only [List.mem_cons, List.not_mem_nil, or_false] at h
      rcases h with rfl | rfl <;> exact high (by omega) (by omega) hb
    split at h
    · simp only [List.mem_cons, List.not_mem_nil, or_false] at h
      rcases h with rfl | rfl | rfl <;> exact high (by omega) (by omega) hb
    · simp only [List.mem_cons, List.not_mem_nil, or_false] at h
      rcases h with rfl | rfl | rfl | rfl <;> exact high (by omega) (by omega) hb

theorem unescape_cons_of_ne {b : UInt8} (h : b ≠ 0x25) (rest : List UInt8) :
    unescape (b :: rest) = plain b :: unescape rest := by
  match rest with
  | [] | [_] => rfl
  | high :: low :: rest => rw [unescape, escaped?, if_neg h]

theorem unescape_of_plain {bytes : List UInt8} (h : ∀ b ∈ bytes, b ≠ 0x25 ∧ b ≠ 0x2B)
    (rest : List UInt8) : unescape (bytes ++ rest) = bytes ++ unescape rest := by
  induction bytes with
  | nil => rfl
  | cons b bytes ih =>
    obtain ⟨⟨hpercent, hplus⟩, hbytes⟩ := List.forall_mem_cons.mp h
    rw [List.cons_append, unescape_cons_of_ne hpercent, plain, if_neg hplus, ih hbytes]
    rfl

theorem unescape_character {c : Char} (hpercent : c ≠ '%') (hplus : c ≠ '+')
    (rest : List UInt8) : unescape (utf8 [c] ++ rest) = utf8 [c] ++ unescape rest := by
  refine unescape_of_plain (fun b hb => ?_) rest
  -- no byte of `c` is `%` or `+`, or `c` would be that character
  have hb : b ∈ String.utf8EncodeChar c := by simpa [utf8] using hb
  constructor
  · rintro rfl
    exact hpercent (Char.toNat_inj.mp (toNat_of_mem_utf8EncodeChar hb (by decide)).symm)
  · rintro rfl
    exact hplus (Char.toNat_inj.mp (toNat_of_mem_utf8EncodeChar hb (by decide)).symm)

-- ---------------------------------------------------------------------------
-- Decoding
-- ---------------------------------------------------------------------------

section
variable {marks : List Char} {c : Char} {cs piece raw : List Char}

theorem unescape_spells (hpercent : '%' ∈ marks) (hplus : '+' ∈ marks)
    (h : Spells marks c piece) (rest : List UInt8) :
    unescape (utf8 piece ++ rest) = utf8 [c] ++ unescape rest := by
  cases h with
  | itself hc =>
    refine unescape_character ?_ ?_ rest
    · rintro rfl
      exact hc hpercent
    · rintro rfl
      exact hc hplus
  | escaped hraw => exact unescape_escapes hraw rest
  | plus => exact unescape_cons_of_ne (by decide) rest

theorem unescape_encodes (hpercent : '%' ∈ marks) (hplus : '+' ∈ marks)
    (h : Encodes marks cs raw) : unescape (utf8 raw) = utf8 cs := by
  induction h with
  | nil => rfl
  | @cons c cs piece raw hpiece _ ih =>
    rw [utf8_append, unescape_spells hpercent hplus hpiece, ih, ← utf8_append]
    rfl

theorem decodeComponent_encodes (hpercent : '%' ∈ marks) (hplus : '+' ∈ marks)
    (h : Encodes marks cs raw) : decodeComponent raw = cs := by
  rw [decodeComponent, unescape_encodes hpercent hplus h, decodeLossy_utf8]

theorem escapes_not_mem {bytes : List UInt8} {m : Char} (hm : m = '&' ∨ m = '=')
    (h : Escapes bytes raw) : m ∉ raw := by
  induction h with
  | nil => simp
  | cons hhigh hlow _ ih =>
    have hhigh := isHexDigit_ne hhigh
    have hlow := isHexDigit_ne hlow
    rcases hm with rfl | rfl
    · simp [ih, hhigh.1.symm, hlow.1.symm]
    · simp [ih, hhigh.2.symm, hlow.2.symm]

/-- A separator among the marks does not stand in an encoding. -/
theorem encodes_not_mem {m : Char} (hm : m = '&' ∨ m = '=') (hmarks : m ∈ marks)
    (h : Encodes marks cs raw) : m ∉ raw := by
  induction h with
  | nil => simp
  | cons hpiece _ ih =>
    rw [List.mem_append, not_or]
    refine ⟨?_, ih⟩
    cases hpiece with
    | itself hc =>
      rw [List.mem_singleton]
      rintro rfl
      exact hc hmarks
    | escaped hraw => exact escapes_not_mem hm hraw
    | plus => rcases hm with rfl | rfl <;> decide

end

-- ---------------------------------------------------------------------------
-- The shortest encoding
-- ---------------------------------------------------------------------------

def hexDigit (n : Nat) : Char := "0123456789ABCDEF".toList.getD n '0'

theorem isHexDigit_hexDigit {n : Nat} (h : n < 16) : IsHexDigit n (hexDigit n) := by
  interval_cases n <;> decide

def escape (bytes : List UInt8) : List Char :=
  bytes.flatMap fun b => ['%', hexDigit (b.toNat / 16), hexDigit (b.toNat % 16)]

def encode (marks cs : List Char) : List Char :=
  cs.flatMap fun c => if c ∈ marks then escape (utf8 [c]) else [c]

theorem escapes_escape (bytes : List UInt8) : Escapes bytes (escape bytes) := by
  induction bytes with
  | nil => exact .nil
  | cons b bytes ih =>
    have := b.toNat_lt
    exact .cons (isHexDigit_hexDigit (by omega)) (isHexDigit_hexDigit (by omega)) ih

theorem encodes_encode (marks cs : List Char) : Encodes marks cs (encode marks cs) := by
  induction cs with
  | nil => exact .nil
  | cons c cs ih =>
    refine .cons ?_ ih
    dsimp only
    split
    · exact .escaped (escapes_escape _)
    · rename_i hc
      exact .itself hc

example : String.ofList (encode ['%', '+', '&'] "a&ü".toList) = "a%26ü" := by decide

end RestQuery.Text

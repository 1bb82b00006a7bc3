import RestQuery.Text.Utf8

/-!
# Reading UTF-8 back

Scanning the encoding of a text gives its characters (`scan_utf8`), so both
decoders undo `utf8`.
-/

namespace RestQuery.Text

private theorem le_of_toNat_le {a b : UInt8} (h : a.toNat ≤ b.toNat) : a ≤ b :=
  UInt8.le_iff_toNat_le.mpr h

private theorem not_le_of_toNat_lt {a b : UInt8} (h : b.toNat < a.toNat) : ¬a ≤ b := by
  rw [UInt8.le_iff_toNat_le]
  omega

private theorem toNat_ofNat_of_lt {n : Nat} (h : n < 256) : (UInt8.ofNat n).toNat = n := by
  rw [UInt8.toNat_ofNat']
  omega

theorem lead_two {b : UInt8} (low : 0xC2 ≤ b.toNat) (high : b.toNat ≤ 0xDF) :
    lead b = ([], some ⟨b.toNat - 0xC0, 1, 0x80, 0xBF⟩) := by
  have h1 : ¬b ≤ 0x7F := not_le_of_toNat_lt (by simp; omega)
  have h2 : ¬b ≤ 0xC1 := not_le_of_toNat_lt (by simp; omega)
  have h3 : b ≤ 0xDF := le_of_toNat_le (by simpa using high)
  simp [lead, h1, h2, h3]

theorem lead_three {b : UInt8} (low : 0xE0 ≤ b.toNat) (high : b.toNat ≤ 0xEF) :
    lead b = ([], some ⟨b.toNat - 0xE0, 2, if b = 0xE0 then 0xA0 else 0x80,
      if b = 0xED then 0x9F else 0xBF⟩) := by
  have h1 : ¬b ≤ 0x7F := not_le_of_toNat_lt (by simp; omega)
  have h2 : ¬b ≤ 0xC1 := not_le_of_toNat_lt (by simp; omega)
  have h3 : ¬b ≤ 0xDF := not_le_of_toNat_lt (by simp; omega)
  have h4 : b ≤ 0xEF := le_of_toNat_le (by simpa using high)
  simp [lead, h1, h2, h3, h4]

theorem lead_four {b : UInt8} (low : 0xF0 ≤ b.toNat) (high : b.toNat ≤ 0xF4) :
    lead b = ([], some ⟨b.toNat - 0xF0, 3, if b = 0xF0 then 0x90 else 0x80,
      if b = 0xF4 then 0x8F else 0xBF⟩) := by
  have h1 : ¬b ≤ 0x7F := not_le_of_toNat_lt (by simp; omega)
  have h2 : ¬b ≤ 0xC1 := not_le_of_toNat_lt (by simp; omega)
  have h3 : ¬b ≤ 0xDF := not_le_of_toNat_lt (by simp; omega)
  have h4 : ¬b ≤ 0xEF := not_le_of_toNat_lt (by simp; omega)
  have h5 : b ≤ 0xF4 := le_of_toNat_le (by simpa using high)
  simp [lead, h1, h2, h3, h4, h5]

theorem scanFrom_more {s : Sequence} {b : UInt8} (bs : List UInt8) (low : s.low ≤ b)
    (high : b ≤ s.high) (hm : s.missing ≠ 1) :
    scanFrom (some s) (b :: bs) = scanFrom (some (s.push b)) bs := by
  simp [step, low, high, hm]

theorem scanFrom_last {s : Sequence} {b : UInt8} (bs : List UInt8) (low : s.low ≤ b)
    (high : b ≤ s.high) (hm : s.missing = 1) :
    scanFrom (some s) (b :: bs) = some (Char.ofNat (s.push b).value) :: scanFrom none bs := by
  simp [step, low, high, hm]

/-- Bytes that come after the second have the full range. -/
private theorem full_range {b : UInt8} {n : Nat} (hb : b.toNat = n + 128) (hn : n < 64) :
    0x80 ≤ b ∧ b ≤ 0xBF :=
  ⟨le_of_toNat_le (by rw [hb]; simp), le_of_toNat_le (by rw [hb]; simp; omega)⟩

theorem scanFrom_lead (b : UInt8) (bs : List UInt8) :
    scanFrom none (b :: bs) = (lead b).1 ++ scanFrom (lead b).2 bs := rfl

theorem scanFrom_two {a b : UInt8} {x y : Nat} (bs : List UInt8) (ha : a.toNat = x + 192)
    (hb : b.toNat = y + 128) (hy : y < 64) (low : 0x80 ≤ x * 64 + y) (high : x * 64 + y < 0x800) :
    scanFrom none (a :: b :: bs) = some (Char.ofNat (x * 64 + y)) :: scanFrom none bs := by
  have hr := full_range hb hy
  rw [scanFrom_lead, lead_two (by omega) (by omega), List.nil_append,
    scanFrom_last bs hr.1 hr.2 rfl]
  have value : (a.toNat - 0xC0) * 64 + (b.toNat - 0x80) = x * 64 + y := by omega
  simp only [Sequence.value_push]
  rw [value]

theorem scanFrom_three {a b c : UInt8} {x y z : Nat} (bs : List UInt8) (ha : a.toNat = x + 224)
    (hb : b.toNat = y + 128) (hc : c.toNat = z + 128) (hy : y < 64) (hz : z < 64)
    (low : 0x800 ≤ (x * 64 + y) * 64 + z) (high : (x * 64 + y) * 64 + z < 0x10000)
    (valid : (x * 64 + y) * 64 + z < 0xD800 ∨ 0xDFFF < (x * 64 + y) * 64 + z) :
    scanFrom none (a :: b :: c :: bs) =
      some (Char.ofNat ((x * 64 + y) * 64 + z)) :: scanFrom none bs := by
  have hr := full_range hc hz
  have hl : (if a = 0xE0 then 0xA0 else 0x80) ≤ b := by
    apply le_of_toNat_le
    split
    · rename_i h
      rw [h] at ha
      simp at ha ⊢
      omega
    · simp
      omega
  have hh : b ≤ (if a = 0xED then 0x9F else 0xBF) := by
    apply le_of_toNat_le
    split
    · rename_i h
      rw [h] at ha
      simp at ha ⊢
      omega
    · simp
      omega
  rw [scanFrom_lead, lead_three (by omega) (by omega), List.nil_append,
    scanFrom_more _ hl hh (by simp), scanFrom_last bs hr.1 hr.2 rfl]
  have value : ((a.toNat - 0xE0) * 64 + (b.toNat - 0x80)) * 64 + (c.toNat - 0x80) =
      (x * 64 + y) * 64 + z := by omega
  simp only [Sequence.value_push]
  rw [value]

theorem scanFrom_four {a b c d : UInt8} {x y z w : Nat} (bs : List UInt8)
    (ha : a.toNat = x + 240) (hb : b.toNat = y + 128) (hc : c.toNat = z + 128)
    (hd : d.toNat = w + 128) (hy : y < 64) (hz : z < 64) (hw : w < 64)
    (low : 0x10000 ≤ ((x * 64 + y) * 64 + z) * 64 + w)
    (high : ((x * 64 + y) * 64 + z) * 64 + w < 0x110000) :
    scanFrom none (a :: b :: c :: d :: bs) =
      some (Char.ofNat (((x * 64 + y) * 64 + z) * 64 + w)) :: scanFrom none bs := by
  have hr := full_range hd hw
  have hm := full_range hc hz
  have hl : (if a = 0xF0 then 0x90 else 0x80) ≤ b := by
    apply le_of_toNat_le
    split
    · rename_i h
      rw [h] at ha
      simp at ha ⊢
      omega
    · simp
      omega
  have hh : b ≤ (if a = 0xF4 then 0x8F else 0xBF) := by
    apply le_of_toNat_le
    split
    · rename_i h
      rw [h] at ha
      simp at ha ⊢
      omega
    · simp
      omega
  rw [scanFrom_lead, lead_four (by omega) (by omega), List.nil_append,
    scanFrom_more _ hl hh (by simp), scanFrom_more _ hm.1 hm.2 (by simp [Sequence.missing_push]),
    scanFrom_last bs hr.1 hr.2 rfl]
  have value : (((a.toNat - 0xF0) * 64 + (b.toNat - 0x80)) * 64 + (c.toNat - 0x80)) * 64 +
      (d.toNat - 0x80) = ((x * 64 + y) * 64 + z) * 64 + w := by omega
  simp only [Sequence.value_push]
  rw [value]

theorem scanFrom_utf8EncodeChar (c : Char) (rest : List UInt8) :
    scanFrom none (String.utf8EncodeChar c ++ rest) = some c :: scanFrom none rest := by
  have valid : c.val.toNat < 0xD800 ∨ 0xDFFF < c.val.toNat ∧ c.val.toNat < 0x110000 := c.valid
  have back : Char.ofNat c.val.toNat = c := Char.ofNat_toNat c
  unfold String.utf8EncodeChar
  generalize c.val.toNat = v at valid back
  subst back
  dsimp only
  split
  · have hb : (UInt8.ofNat v).toNat = v := toNat_ofNat_of_lt (by omega)
    have ascii : UInt8.ofNat v ≤ 0x7F := le_of_toNat_le (by rw [hb]; simpa)
    rw [List.singleton_append, scanFrom_cons, step_ascii ascii, hb]
    rfl
  split
  · have h := scanFrom_two rest (toNat_ofNat_of_lt (n := v / 64 % 32 + 192) (by omega))
      (toNat_ofNat_of_lt (n := v % 64 + 128) (by omega)) (by omega) (by omega) (by omega)
    rwa [show v / 64 % 32 * 64 + v % 64 = v by omega] at h
  split
  · have e : (v / 4096 % 16 * 64 + v / 64 % 64) * 64 + v % 64 = v := by omega
    have h := scanFrom_three rest (toNat_ofNat_of_lt (n := v / 4096 % 16 + 224) (by omega))
      (toNat_ofNat_of_lt (n := v / 64 % 64 + 128) (by omega))
      (toNat_ofNat_of_lt (n := v % 64 + 128) (by omega)) (by omega) (by omega) (by omega)
      (by omega) (by omega)
    rwa [e] at h
  · have e : ((v / 262144 % 8 * 64 + v / 4096 % 64) * 64 + v / 64 % 64) * 64 + v % 64 = v := by
      omega
    have h := scanFrom_four rest (toNat_ofNat_of_lt (n := v / 262144 % 8 + 240) (by omega))
      (toNat_ofNat_of_lt (n := v / 4096 % 64 + 128) (by omega))
      (toNat_ofNat_of_lt (n := v / 64 % 64 + 128) (by omega))
      (toNat_ofNat_of_lt (n := v % 64 + 128) (by omega)) (by omega) (by omega) (by omega)
      (by omega) (by omega)
    rwa [e] at h

theorem scan_utf8_append (cs : List Char) (rest : List UInt8) :
    scan (utf8 cs ++ rest) = cs.map some ++ scan rest := by
  induction cs with
  | nil => rfl
  | cons c cs ih =>
    rw [show utf8 (c :: cs) ++ rest = String.utf8EncodeChar c ++ (utf8 cs ++ rest) by simp [utf8]]
    unfold scan at ih ⊢
    rw [scanFrom_utf8EncodeChar, ih]
    rfl

theorem scan_utf8 (cs : List Char) : scan (utf8 cs) = cs.map some := by
  have h := scan_utf8_append cs []
  simpa [scan, scanFrom] using h

theorem decodeLossy_utf8 (cs : List Char) : decodeLossy (utf8 cs) = cs := by
  simp [decodeLossy, scan_utf8, Function.comp_def]

example : decodeLossy [0xC3, 0xA9, 0xE2, 0x82, 0xAC] = ['é', '€'] := by decide

theorem decode?_utf8 (cs : List Char) : decode? (utf8 cs) = some cs := by
  rw [decode?, scan_utf8]
  induction cs with
  | nil => rfl
  | cons c cs ih => simp [ih]

end RestQuery.Text

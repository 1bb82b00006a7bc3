import Mathlib.Algebra.Order.BigOperators.Group.List
import RestQuery.Proofs.Text.Joints

/-!
# What decoding does to a text

A raw text is made of escapes and of characters outside them (`pieces`). An
escape gives one byte, any other character itself, and a `+` a space
(`unescape_utf8`). A character ends whatever the escapes before it have begun,
so only escaped bytes are ever ill-formed, and no escape gives more than it is
written with (`length_utf8_decodeComponent_le`). It gives fewer characters,
though (`length_decodeComponent_le`): a text that decodes to itself has no
escape (`decodeComponent_unchanged`).
-/

namespace RestQuery.Text

def IsHex (c : Char) : Prop := ∃ n < 16, IsHexDigit n c

instance (c : Char) : Decidable (IsHex c) := by unfold IsHex; infer_instance

inductive Piece where
  | escape (high low : Char)
  | character (c : Char)
  deriving DecidableEq

def Piece.raw : Piece → List Char
  | .escape high low => ['%', high, low]
  | .character c => [c]

def spaced (c : Char) : Char := if c = '+' then ' ' else c

def Piece.bytes : Piece → List UInt8
  | .escape high low =>
    (escaped? 0x25 (UInt8.ofNat high.toNat) (UInt8.ofNat low.toNat)).toList
  | .character c => utf8 [spaced c]

def pieces : List Char → List Piece
  | [] => []
  | c :: high :: low :: cs =>
    if c = '%' ∧ IsHex high ∧ IsHex low then .escape high low :: pieces cs
    else .character c :: pieces (high :: low :: cs)
  | c :: cs => .character c :: pieces cs

/-- No escape starts with `c` where `cs` stands after it. -/
def Unescaped (c : Char) (cs : List Char) : Prop :=
  ∀ high low rest, cs = high :: low :: rest → ¬(c = '%' ∧ IsHex high ∧ IsHex low)

theorem pieces_escape {high low : Char} (hhigh : IsHex high) (hlow : IsHex low) (cs : List Char) :
    pieces ('%' :: high :: low :: cs) = .escape high low :: pieces cs := by
  rw [pieces, if_pos ⟨rfl, hhigh, hlow⟩]

theorem pieces_character {c : Char} {cs : List Char} (h : Unescaped c cs) :
    pieces (c :: cs) = .character c :: pieces cs := by
  match cs with
  | [] | [_] => rfl
  | high :: low :: rest => rw [pieces, if_neg (h high low rest rfl)]

theorem pieces_induction {motive : List Char → Prop} (nil : motive [])
    (escape : ∀ high low cs, IsHex high → IsHex low → motive cs →
      motive ('%' :: high :: low :: cs))
    (character : ∀ c cs, Unescaped c cs → motive cs → motive (c :: cs)) (raw : List Char) :
    motive raw := by
  fun_induction pieces raw with
  | case1 => exact nil
  | case2 c high low cs hescape ih =>
    obtain ⟨rfl, hhigh, hlow⟩ := hescape
    exact escape high low cs hhigh hlow ih
  | case3 c high low cs hplain ih =>
    refine character c _ (fun _ _ _ hcs => ?_) ih
    cases hcs
    exact hplain
  | case4 c cs hshort ih => exact character c cs (fun _ _ _ hcs => (hshort _ _ _ hcs).elim) ih

theorem flatMap_raw_pieces (raw : List Char) : (pieces raw).flatMap Piece.raw = raw := by
  induction raw using pieces_induction with
  | nil => rfl
  | escape high low cs hhigh hlow ih => simp [pieces_escape hhigh hlow, Piece.raw, ih]
  | character c cs hc ih => simp [pieces_character hc, Piece.raw, ih]

theorem IsHex.ne_percent {c : Char} (h : IsHex c) : c ≠ '%' := by
  rintro rfl
  exact absurd h (by decide)

theorem infix_escape_cons {c high low : Char} {cs : List Char} :
    ['%', high, low] <:+: c :: cs ↔
      (c = '%' ∧ ∃ rest, cs = high :: low :: rest) ∨ ['%', high, low] <:+: cs := by
  rw [List.infix_cons_iff, List.cons_prefix_cons, eq_comm (a := '%')]
  simp only [List.IsPrefix, List.cons_append, List.nil_append, eq_comm (b := cs)]

theorem escape_mem_pieces {raw : List Char} {high low : Char} :
    .escape high low ∈ pieces raw ↔ ['%', high, low] <:+: raw ∧ IsHex high ∧ IsHex low := by
  induction raw using pieces_induction with
  | nil => simp [pieces]
  | escape h l cs hh hl ih =>
    -- neither digit is a `%`, so the next escape starts after both
    simp only [pieces_escape hh hl, List.mem_cons, Piece.escape.injEq, ih, infix_escape_cons,
      hh.ne_percent, hl.ne_percent, false_and, false_or, true_and, List.cons.injEq]
    constructor
    · rintro (⟨rfl, rfl⟩ | ⟨hcs, hdigits⟩)
      · exact ⟨.inl ⟨cs, rfl, rfl, rfl⟩, hh, hl⟩
      · exact ⟨.inr hcs, hdigits⟩
    · rintro ⟨⟨_, rfl, rfl, -⟩ | hcs, hdigits⟩
      · exact .inl ⟨rfl, rfl⟩
      · exact .inr ⟨hcs, hdigits⟩
  | character c cs hc ih =>
    rw [pieces_character hc, List.mem_cons, ih, infix_escape_cons]
    constructor
    · intro hmem
      obtain ⟨hcs, hdigits⟩ := hmem.resolve_left nofun
      exact ⟨.inr hcs, hdigits⟩
    · rintro ⟨⟨rfl, rest, hcs⟩ | hcs, hdigits⟩
      · exact absurd ⟨rfl, hdigits⟩ (hc high low rest hcs)
      · exact .inr ⟨hcs, hdigits⟩

-- ---------------------------------------------------------------------------
-- Bytes
-- ---------------------------------------------------------------------------

theorem utf8EncodeChar_start (c : Char) :
    (c.toNat < 0x80 ∧ String.utf8EncodeChar c = [UInt8.ofNat c.toNat]) ∨
      ∃ first more, String.utf8EncodeChar c = first :: more ∧ 0xC0 ≤ first := by
  have lead {n m : Nat} (hm : 0xC0 ≤ m) (h : n < 256 - m) : 0xC0 ≤ UInt8.ofNat (n + m) := by
    rw [UInt8.le_iff_toNat_le, UInt8.toNat_ofNat']
    change 0xC0 ≤ _
    omega
  change (c.val.toNat < 0x80 ∧ String.utf8EncodeChar c = [UInt8.ofNat c.val.toNat]) ∨ _
  unfold String.utf8EncodeChar
  generalize c.val.toNat = v
  dsimp only
  split
  · exact .inl ⟨by omega, rfl⟩
  split
  · exact .inr ⟨_, _, rfl, lead (by omega) (by omega)⟩
  split
  · exact .inr ⟨_, _, rfl, lead (by omega) (by omega)⟩
  · exact .inr ⟨_, _, rfl, lead (by omega) (by omega)⟩

theorem isHex_of_hexDigit? :
    ∀ n < 0x80, (hexDigit? (UInt8.ofNat n)).isSome → IsHex (Char.ofNat n) := by
  decide

theorem hexDigit?_eq_none {b : UInt8} (h : 0xC0 ≤ b) : hexDigit? b = none := by
  have out (high : UInt8) (hhigh : high < 0xC0) : ¬b ≤ high := fun hle =>
    absurd (UInt8.lt_of_le_of_lt (UInt8.le_trans h hle) hhigh) (UInt8.lt_irrefl _)
  simp [hexDigit?, out]

theorem exists_isHex_of_utf8 {cs : List Char} {b : UInt8} {bs : List UInt8}
    (hcs : utf8 cs = b :: bs) (hb : (hexDigit? b).isSome) :
    ∃ c rest, cs = c :: rest ∧ IsHex c ∧ utf8 rest = bs := by
  cases cs with
  | nil => cases hcs
  | cons c rest =>
    rw [utf8, List.flatMap_cons, ← utf8] at hcs
    rcases utf8EncodeChar_start c with ⟨hascii, hchar⟩ | ⟨first, more, hchar, hfirst⟩
    · rw [hchar] at hcs
      obtain ⟨rfl, hrest⟩ := List.cons.inj hcs
      exact ⟨c, rest, rfl, Char.ofNat_toNat c ▸ isHex_of_hexDigit? _ hascii hb, hrest⟩
    · rw [hchar] at hcs
      obtain ⟨rfl, -⟩ := List.cons.inj hcs
      rw [hexDigit?_eq_none hfirst] at hb
      cases hb

theorem unescape_percent {cs : List Char} (h : Unescaped '%' cs) :
    unescape (0x25 :: utf8 cs) = 0x25 :: unescape (utf8 cs) := by
  match hbytes : utf8 cs with
  | [] | [_] => rfl
  | b :: b' :: bs =>
    have hnone : escaped? 0x25 b b' = none := by
      by_contra hsome
      have hb : (hexDigit? b).isSome := by
        by_contra hb
        exact hsome (escaped?_of_high (by simpa using hb))
      have hb' : (hexDigit? b').isSome := by
        by_contra hb'
        exact hsome (escaped?_of_low (by simpa using hb'))
      obtain ⟨high, rest, rfl, hhigh, hrest⟩ := exists_isHex_of_utf8 hbytes hb
      obtain ⟨low, rest, rfl, hlow, -⟩ := exists_isHex_of_utf8 hrest hb'
      exact h high low rest rfl ⟨rfl, hhigh, hlow⟩
    rw [unescape, hnone]
    rfl

theorem unescape_cons {c : Char} {cs : List Char} (h : Unescaped c cs) :
    unescape (utf8 (c :: cs)) = utf8 [spaced c] ++ unescape (utf8 cs) := by
  rw [← List.singleton_append, utf8_append]
  by_cases hpercent : c = '%'
  · subst hpercent
    exact unescape_percent h
  by_cases hplus : c = '+'
  · subst hplus
    exact unescape_cons_of_ne (by decide) _
  · rw [spaced, if_neg hplus]
    exact unescape_character hpercent hplus _

theorem Piece.bytes_escape {h l : Nat} {high low : Char} (hhigh : IsHexDigit h high)
    (hlow : IsHexDigit l low) :
    (Piece.escape high low).bytes = [UInt8.ofNat h * 16 + UInt8.ofNat l] := by
  rw [bytes, escaped?, if_pos rfl, (hexDigit?_of_isHexDigit hhigh).2,
    (hexDigit?_of_isHexDigit hlow).2]
  rfl

/-- The bytes that a text stands for, piece by piece. -/
theorem unescape_utf8 (raw : List Char) :
    unescape (utf8 raw) = (pieces raw).flatMap Piece.bytes := by
  induction raw using pieces_induction with
  | nil => rfl
  | escape high low cs hhigh hlow ih =>
    rw [pieces_escape hhigh hlow]
    obtain ⟨h, -, hhigh⟩ := hhigh
    obtain ⟨l, -, hlow⟩ := hlow
    have hescape := unescape_escape hhigh hlow cs []
    rw [List.append_nil, List.append_nil, ih] at hescape
    rw [hescape, List.flatMap_cons, Piece.bytes_escape hhigh hlow]
    rfl
  | character c cs hc ih =>
    rw [unescape_cons hc, pieces_character hc, ih]
    rfl

-- ---------------------------------------------------------------------------
-- Sizes
-- ---------------------------------------------------------------------------

/-- The size of what is read, with a replacement for each ill-formed part. -/
def total (size : Char → Nat) (items : List (Option Char)) : Nat :=
  (items.map fun item => size (item.getD replacement)).sum

/-- What a sequence under way may still be replaced by. -/
def pending (k : Nat) : Option Sequence → Nat
  | none => 0
  | some _ => k

/-- A size for which one byte is worth `k`: what is read of it alone is no larger, and no
character is larger than two bytes are worth. -/
structure WorthOfByte (size : Char → Nat) (k : Nat) : Prop where
  ascii : ∀ n < 0x80, size (Char.ofNat n) ≤ k
  replaced : size replacement ≤ k
  any : ∀ c, size c ≤ k + k

def Piece.worth (size : Char → Nat) (k : Nat) : Piece → Nat
  | .escape _ _ => k
  | .character c => size (spaced c)

section
variable {size : Char → Nat} {k : Nat}

theorem total_append (items more : List (Option Char)) :
    total size (items ++ more) = total size items + total size more := by
  simp [total]

theorem total_cons (item : Option Char) (items : List (Option Char)) :
    total size (item :: items) = size (item.getD replacement) + total size items := by
  simp [total]

theorem total_lead (h : WorthOfByte size k) (b : UInt8) :
    total size (lead b).1 + pending k (lead b).2 ≤ k := by
  have started (s : Sequence) : total size [] + pending k (some s) ≤ k := by
    simp [total, pending]
  have refused : total size [none] + pending k none ≤ k := by
    simpa [total, pending] using h.replaced
  unfold lead
  split
  next hb =>
    have hsmall : b.toNat < 0x80 :=
      Nat.lt_of_le_of_lt (UInt8.le_iff_toNat_le.mp hb) (by decide)
    simpa [total, pending] using h.ascii _ hsmall
  split
  · exact refused
  split
  · exact started _
  split
  · exact started _
  split
  · exact started _
  · exact refused

/-- A byte adds at most its worth to what is read and what is under way. -/
theorem total_step (h : WorthOfByte size k) (s? : Option Sequence) (b : UInt8) :
    total size (step s? b).1 + pending k (step s? b).2 ≤ pending k s? + k := by
  have hlead := total_lead h b
  cases s? with
  | none => simpa [step, pending] using hlead
  | some s =>
    simp only [step]
    split
    · split
      -- a character that ends here is paid for by what was pending and by its last byte
      · simpa [total, pending] using h.any _
      · simp [total, pending]
    -- what was pending pays for the replacement, and the byte is read afresh
    · have hreplaced := h.replaced
      rw [total_cons]
      simp only [pending, Option.getD_none] at hlead ⊢
      omega

theorem scanFrom_character {s? : Option Sequence} (hs : Continuing s?) (c : Char)
    (rest : List UInt8) :
    scanFrom s? (utf8 [c] ++ rest) = scanFrom s? [] ++ some c :: scan rest := by
  have hutf8 : utf8 [c] = String.utf8EncodeChar c := by simp [utf8]
  obtain ⟨first, more, hchar, hfirst⟩ : ∃ first more, String.utf8EncodeChar c = first :: more ∧
      (first ≤ 0x7F ∨ 0xC0 ≤ first) := by
    rcases utf8EncodeChar_start c with ⟨hascii, hchar⟩ | ⟨first, more, hchar, hfirst⟩
    · refine ⟨_, [], hchar, .inl ?_⟩
      rw [UInt8.le_iff_toNat_le, UInt8.toNat_ofNat']
      change _ ≤ 0x7F
      omega
    · exact ⟨first, more, hchar, .inr hfirst⟩
  have hstart := scanFrom_start hs hfirst [] (more ++ rest)
  rw [List.nil_append, ← List.cons_append, ← hchar] at hstart
  rw [hutf8, hstart, scan, scanFrom_utf8EncodeChar]
  rfl

theorem total_unfinished (h : WorthOfByte size k) (s? : Option Sequence) :
    total size (scanFrom s? []) ≤ pending k s? := by
  cases s? with
  | none => exact Nat.le_refl _
  | some s => simpa [scanFrom, total, pending] using h.replaced

/-- Only what escapes give can be ill-formed, and it is no larger than their bytes are worth. -/
theorem total_pieces (h : WorthOfByte size k) {s? : Option Sequence} (hs : Continuing s?)
    (ps : List Piece) :
    total size (scanFrom s? (ps.flatMap Piece.bytes)) ≤
      pending k s? + (ps.map (Piece.worth size k)).sum := by
  induction ps generalizing s? with
  | nil => simpa using total_unfinished h s?
  | cons p ps ih =>
    rw [List.flatMap_cons, List.map_cons, List.sum_cons]
    cases p with
    | escape high low =>
      cases hbyte : escaped? 0x25 (UInt8.ofNat high.toNat) (UInt8.ofNat low.toNat) with
      | none =>
        have hrest := ih hs
        simp only [Piece.bytes, hbyte, Option.toList_none, List.nil_append, Piece.worth]
        omega
      | some b =>
        have hrest := ih (continuing_step s? b)
        have hstep := total_step h s? b
        simp only [Piece.bytes, hbyte, Option.toList_some, List.singleton_append, scanFrom_cons,
          total_append, Piece.worth]
        omega
    | character c =>
      have hrest := ih continuing_none
      have hunfinished := total_unfinished h s?
      simp only [Piece.bytes, scanFrom_character hs, total_append, total_cons, Option.getD_some,
        Piece.worth]
      simp only [pending, Nat.zero_add] at hrest
      rw [scan]
      omega

theorem sum_decodeComponent_le (h : WorthOfByte size k) (raw : List Char) :
    ((decodeComponent raw).map size).sum ≤ ((pieces raw).map (Piece.worth size k)).sum := by
  have htotal := total_pieces h continuing_none (pieces raw)
  rw [← unescape_utf8] at htotal
  simpa [decodeComponent, decodeLossy, scan, total, pending, Function.comp_def] using htotal

end

-- ---------------------------------------------------------------------------
-- Length
-- ---------------------------------------------------------------------------

theorem length_utf8 (cs : List Char) : (utf8 cs).length = (cs.map Char.utf8Size).sum := by
  simp [utf8, List.length_flatMap]

theorem worthOfByte_utf8Size : WorthOfByte Char.utf8Size 3 where
  ascii := by decide
  replaced := by decide
  any c := Nat.le_trans c.utf8Size_le_four (by decide)

theorem worthOfByte_one : WorthOfByte (fun _ => 1) 1 where
  ascii _ _ := Nat.le_refl 1
  replaced := Nat.le_refl 1
  any _ := by decide

theorem Piece.worth_le_length (p : Piece) : p.worth Char.utf8Size 3 ≤ (utf8 p.raw).length := by
  rw [length_utf8]
  cases p with
  | escape high low =>
    have hhigh := high.utf8Size_pos
    have hlow := low.utf8Size_pos
    have hpercent := Char.utf8Size_pos '%'
    simp only [worth, raw, List.map_cons, List.map_nil, List.sum_cons, List.sum_nil]
    omega
  | character c =>
    simp only [worth, raw, spaced, List.map_cons, List.map_nil, List.sum_cons, List.sum_nil]
    split
    next h =>
      subst h
      decide
    next => exact Nat.le_refl _

theorem utf8_flatMap_raw (ps : List Piece) :
    (utf8 (ps.flatMap Piece.raw)).length = (ps.map fun p => (utf8 p.raw).length).sum := by
  rw [utf8, List.flatMap_assoc, List.length_flatMap]
  rfl

/-- Decoding never makes a text longer, whatever its escapes stand for. -/
theorem length_utf8_decodeComponent_le (raw : List Char) :
    (utf8 (decodeComponent raw)).length ≤ (utf8 raw).length :=
  calc (utf8 (decodeComponent raw)).length
      = ((decodeComponent raw).map Char.utf8Size).sum := length_utf8 _
    _ ≤ ((pieces raw).map (Piece.worth Char.utf8Size 3)).sum :=
      sum_decodeComponent_le worthOfByte_utf8Size raw
    _ ≤ ((pieces raw).map fun p => (utf8 p.raw).length).sum :=
      List.sum_le_sum fun p _ => p.worth_le_length
    _ = (utf8 raw).length := by rw [← utf8_flatMap_raw, flatMap_raw_pieces]

theorem length_decodeComponent_le (raw : List Char) :
    (decodeComponent raw).length ≤ (pieces raw).length := by
  have hsum := sum_decodeComponent_le worthOfByte_one raw
  have hworth : Piece.worth (fun _ => 1) 1 = fun _ => 1 := by
    funext p
    cases p <;> rfl
  simpa only [hworth, List.map_const', List.sum_replicate_nat, Nat.mul_one] using hsum

-- ---------------------------------------------------------------------------
-- Texts without escapes
-- ---------------------------------------------------------------------------

def Piece.isEscape : Piece → Bool
  | .escape _ _ => true
  | .character _ => false

theorem length_pieces (raw : List Char) :
    (pieces raw).length + 2 * (pieces raw).countP Piece.isEscape = raw.length := by
  induction raw using pieces_induction with
  | nil => rfl
  | escape high low cs hhigh hlow ih =>
    rw [pieces_escape hhigh hlow, List.countP_cons_of_pos rfl]
    simp only [List.length_cons]
    omega
  | character c cs hc ih =>
    rw [pieces_character hc, List.countP_cons_of_neg (by simp [Piece.isEscape])]
    simp only [List.length_cons]
    omega

theorem pieces_eq_map {raw : List Char} (h : ∀ high low, .escape high low ∉ pieces raw) :
    pieces raw = raw.map .character := by
  induction raw using pieces_induction with
  | nil => rfl
  | escape high low cs hhigh hlow ih =>
    rw [pieces_escape hhigh hlow] at h
    exact absurd List.mem_cons_self (h high low)
  | character c cs hc ih =>
    rw [pieces_character hc] at h ⊢
    rw [List.map_cons, ih fun high low hmem => h high low (List.mem_cons_of_mem _ hmem)]

theorem decodeComponent_of_no_escape {raw : List Char}
    (h : ∀ high low, .escape high low ∉ pieces raw) : decodeComponent raw = raw.map spaced := by
  have hbytes : (raw.map Piece.character).flatMap Piece.bytes = utf8 (raw.map spaced) := by
    simp [Piece.bytes, utf8, List.flatMap_map]
  rw [decodeComponent, unescape_utf8, pieces_eq_map h, hbytes, decodeLossy_utf8]

example : decodeComponent "100%+%zz".toList = "100% %zz".toList := by decide

theorem spaced_eq_self {c : Char} : spaced c = c ↔ '+' ≠ c := by
  unfold spaced
  split
  next h => simp [h]
  next h => simp [Ne.symm h]

theorem map_spaced_eq_self {raw : List Char} : raw.map spaced = raw ↔ '+' ∉ raw := by
  induction raw with
  | nil => simp
  | cons c raw ih => rw [List.map_cons, List.cons.injEq, spaced_eq_self, ih, List.mem_cons, not_or]

/-- A text decodes to itself exactly when nothing in it is to be decoded: no `+`, and no `%` with
two digits after it. No text grows. -/
theorem decodeComponent_unchanged (raw : List Char) :
    (decodeComponent raw = raw ↔ '+' ∉ raw ∧
      ∀ high low, IsHex high → IsHex low → ¬['%', high, low] <:+: raw) ∧
    (utf8 (decodeComponent raw)).length ≤ (utf8 raw).length := by
  refine ⟨⟨fun hself => ?_, ?_⟩, length_utf8_decodeComponent_le raw⟩
  · -- an escape would leave fewer characters than the text has
    have hnone (high low : Char) : .escape high low ∉ pieces raw := by
      intro hmem
      have hcount : 0 < (pieces raw).countP Piece.isEscape :=
        List.countP_pos_iff.mpr ⟨_, hmem, rfl⟩
      have hlength := length_pieces raw
      have hle := length_decodeComponent_le raw
      rw [hself] at hle
      omega
    rw [decodeComponent_of_no_escape hnone, map_spaced_eq_self] at hself
    exact ⟨hself, fun high low hhigh hlow hraw =>
      hnone high low (escape_mem_pieces.mpr ⟨hraw, hhigh, hlow⟩)⟩
  · rintro ⟨hplus, hescapes⟩
    have hnone (high low : Char) : .escape high low ∉ pieces raw := by
      intro hmem
      obtain ⟨hraw, hhigh, hlow⟩ := escape_mem_pieces.mp hmem
      exact hescapes high low hhigh hlow hraw
    rw [decodeComponent_of_no_escape hnone, map_spaced_eq_self]
    exact hplus

end RestQuery.Text

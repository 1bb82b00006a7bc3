import RestQuery.Proofs.Toml.ScanLaws
import RestQuery.Toml.Quoted

/-!
# Written strings are read back

`text_quoted`: whatever form a string is written in, reading gives it back and
stops behind its closing delimiter. `Stands` says how one character is written
in a form, `Body` how a string is in a multi-line form, where no three quotes
may stand in a row; what the writer puts between the delimiters is related to
the string by them, and reading undoes both relations.
-/

namespace RestQuery.Toml

open Scan

-- ---------------------------------------------------------------------------
-- Escapes
-- ---------------------------------------------------------------------------

inductive Escape : Char → List Char → Prop
  | short {c letter : Char} : shortEscapes.lookup letter = some c → Escape c [letter]
  | numbered {c high low : Char} {h l : Nat} : digitOf? 16 high = some h → digitOf? 16 low = some l →
      c.toNat = h * 16 + l → Escape c ['u', '0', '0', high, low]

theorem digit_cons {base n : Nat} {c : Char} (h : digitOf? base c = some n) (rest : List Char) :
    digit base (c :: rest) = some (n, rest) :=
  filterMap_some (a := c) rfl h

theorem charOf?_toNat (c : Char) : charOf? c.toNat = some c := by
  have hvalid : c.toNat.isValidChar := c.valid
  simp [charOf?, hvalid]

theorem escape_of_escape {c : Char} {w : List Char} (h : Escape c w) (rest : List Char) :
    escape ('\\' :: (w ++ rest)) = some (c, rest) := by
  rw [escape, bind_some (char_self '\\' _)]
  cases h with
  | @short letter hletter => exact orElse_left _ (filterMap_some (a := letter) rfl hletter)
  | @numbered high low h l hhigh hlow hc =>
    have hshort : (filterMap (fun c => shortEscapes.lookup c) (satisfy fun _ => true))
        (['u', '0', '0', high, low] ++ rest) = none := rfl
    have hzero : digitOf? 16 '0' = some 0 := by decide
    have hdigits : times 4 (digit 16) ('0' :: '0' :: high :: low :: rest) =
        some ([0, 0, h, l], rest) := by
      simp [times, run_bind, digit_cons hzero, digit_cons hhigh, digit_cons hlow, run_map]
    have hvalue : Text.ofDigits 16 [0, 0, h, l] = c.toNat := by
      simp [Text.ofDigits, hc]
    rw [orElse_right _ hshort]
    refine orElse_left _ ?_
    rw [List.cons_append, numberedEscape, bind_some (char_self 'u' _)]
    refine filterMap_some hdigits ?_
    rw [hvalue, charOf?_toNat]

theorem escape_head {c : Char} {w : List Char} (h : Escape c w) :
    ∃ letter rest, w = letter :: rest ∧ ¬isBlank letter ∧ letter ≠ '\n' ∧ letter ≠ '\r' := by
  cases h with
  | numbered => exact ⟨'u', _, rfl, by decide⟩
  | @short letter h =>
    refine ⟨letter, [], rfl, ?_, ?_, ?_⟩
    · intro hblank
      have : letter = ' ' ∨ letter = '\t' := by simpa [isBlank] using hblank
      rcases this with rfl | rfl
      · cases h
      · cases h
    · rintro rfl
      cases h
    · rintro rfl
      cases h

-- ---------------------------------------------------------------------------
-- One character
-- ---------------------------------------------------------------------------

/-- How a character stands between `q`, quotes and line feeds of multi-line
forms apart. -/
inductive Stands (q : Char) : Char → List Char → Prop
  | itself {c : Char} : isPlain q c → Stands q c [c]
  | escaped {c : Char} {w : List Char} : q = '"' → Escape c w → Stands q c ('\\' :: w)

theorem isPlain_iff {q c : Char} :
    isPlain q c ↔
      (c = '\t' ∨ 0x20 ≤ c.toNat ∧ c.toNat ≠ 0x7F) ∧ c ≠ q ∧ (q = '\'' ∨ c ≠ '\\') := by
  simp [isPlain, and_assoc]

theorem isPlain_of_not_rare {q c : Char} (hrare : ¬isRareControl c) (hbreak : c ≠ '\n')
    (hq : c ≠ q) (hslash : q = '\'' ∨ c ≠ '\\') : isPlain q c := by
  refine isPlain_iff.mpr ⟨?_, hq, hslash⟩
  by_cases htab : c = '\t'
  · exact .inl htab
  · simp only [isRareControl] at hrare
    simp [htab, hbreak] at hrare
    exact .inr hrare

theorem upperHexDigit_value {n : Nat} (h : n < 16) : digitOf? 16 (upperHexDigit n) = some n := by
  revert n
  decide

theorem stands_escaped {c : Char} (hquote : c ≠ '"') (hbreak : c ≠ '\n') :
    Stands '"' c (escaped c) := by
  unfold escaped
  split
  · exact .escaped rfl (.short rfl)
  · exact .escaped rfl (.short rfl)
  · exact .escaped rfl (.short rfl)
  · exact .escaped rfl (.short rfl)
  · exact .escaped rfl (.short rfl)
  · rename_i hslash
    split
    · rename_i hrare
      have hlt : c.toNat < 128 := by
        simp [isRareControl] at hrare
        omega
      refine .escaped rfl (.numbered (upperHexDigit_value ?_) (upperHexDigit_value ?_) ?_) <;> omega
    · rename_i hrare
      exact .itself (isPlain_of_not_rare hrare hbreak hquote (.inr hslash))

theorem stands_quote : Stands '"' '"' ['\\', '"'] := .escaped rfl (.short rfl)

-- ---------------------------------------------------------------------------
-- Strings on one line
-- ---------------------------------------------------------------------------

inductive Spelled (q : Char) : List Char → List Char → Prop
  | nil : Spelled q [] []
  | cons {c : Char} {cs w raw : List Char} : Stands q c w → Spelled q cs raw →
      Spelled q (c :: cs) (w ++ raw)

theorem spelled_basicBody {cs : List Char} (h : '\n' ∉ cs) : Spelled '"' cs (basicBody cs) := by
  induction cs with
  | nil => exact .nil
  | cons c cs ih =>
    rw [List.mem_cons, not_or] at h
    refine .cons ?_ (ih h.2)
    dsimp only
    by_cases hquote : c = '"'
    · subst hquote
      exact stands_quote
    · rw [if_neg hquote]
      exact stands_escaped hquote (Ne.symm h.1)

theorem spelled_head {q : Char} {cs raw : List Char} (h : Spelled q cs raw) :
    raw.head? ≠ some q := by
  cases h with
  | nil => simp
  | cons hw _ =>
    cases hw with
    | itself hplain => simpa using (isPlain_iff.mp hplain).2.1
    | escaped hquote _ => simp [hquote]

theorem basicPiece_escape {c : Char} {w : List Char} (h : Escape c w) (rest : List Char) :
    basicPiece ('\\' :: (w ++ rest)) = some ([c], rest) := by
  rw [basicPiece, orElse_right _ (span1_none (by decide) _), bind_some (escape_of_escape h rest)]
  rfl

theorem joined_basicPiece {cs raw : List Char} (h : Spelled '"' cs raw) (rest : List Char) :
    joined basicPiece (raw ++ '"' :: rest) = some (cs, '"' :: rest) := by
  induction h with
  | nil => exact joined_none rfl
  | @cons c cs w raw hw _ ih =>
    rw [List.append_assoc]
    cases hw with
    | itself hplain =>
      rw [basicPiece] at ih ⊢
      rw [List.singleton_append, joined_plain hplain, ih]
      rfl
    | @escaped w _ hescape =>
      have hl := length_lt_append (List.cons_ne_nil '\\' w) (raw ++ '"' :: rest)
      rw [List.cons_append, joined_some (basicPiece_escape hescape _) hl, ih]
      rfl

theorem basic_spelled {cs raw : List Char} (h : Spelled '"' cs raw) (rest : List Char) :
    basic ('"' :: (raw ++ '"' :: rest)) = some (cs, rest) := by
  obtain ⟨pieces, hmany, rfl⟩ := many_of_joined (joined_basicPiece h rest)
  simp [basic, run_bind, run_map, hmany]

theorem literal_plain {cs : List Char} (h : ∀ c ∈ cs, isPlain '\'' c) (rest : List Char) :
    literal ('\'' :: (cs ++ '\'' :: rest)) = some (cs, rest) := by
  have hspan : span (isPlain '\'') (cs ++ '\'' :: rest) = some (cs, '\'' :: rest) :=
    span_append h (by rintro _ ⟨⟩; decide)
  simp [literal, run_bind, run_map, hspan]

-- ---------------------------------------------------------------------------
-- Strings on several lines
-- ---------------------------------------------------------------------------

/-- How a string stands in a multi-line form after `run` quotes in a row. -/
inductive Body (q : Char) : Nat → List Char → List Char → Prop
  | nil {run : Nat} : Body q run [] []
  | quote {run : Nat} {cs raw : List Char} : run < 2 → Body q (run + 1) cs raw →
      Body q run (q :: cs) (q :: raw)
  | feed {run : Nat} {cs raw : List Char} : Body q 0 cs raw → Body q run ('\n' :: cs) ('\n' :: raw)
  | character {run : Nat} {c : Char} {cs w raw : List Char} : Stands q c w → Body q 0 cs raw →
      Body q run (c :: cs) (w ++ raw)

theorem body_multilineBasicBody {run : Nat} (cs : List Char) (h : run ≤ 2) :
    Body '"' run cs (multilineBasicBody run cs) := by
  induction cs generalizing run with
  | nil => exact .nil
  | cons c cs ih =>
    unfold multilineBasicBody
    split
    · rename_i hquote
      subst hquote
      split
      · exact .character stands_quote (ih (by omega))
      · exact .quote (by omega) (ih (by omega))
    · rename_i hquote
      by_cases hbreak : c = '\n'
      · subst hbreak
        exact .feed (ih (by omega))
      · exact .character (stands_escaped hquote hbreak) (ih (by omega))

theorem le_longestRun (q : Char) (cs : List Char) (current best : Nat) :
    best ≤ longestRun q current best cs := by
  induction cs generalizing current best with
  | nil => exact Nat.le_refl _
  | cons c cs ih =>
    unfold longestRun
    split
    · exact Nat.le_trans (Nat.le_max_left _ _) (ih _ _)
    · exact ih _ _

theorem not_mem_of_longestRun {q : Char} {cs : List Char} {current best : Nat}
    (h : longestRun q current best cs = 0) : q ∉ cs := by
  induction cs generalizing current best with
  | nil => simp
  | cons c cs ih =>
    unfold longestRun at h
    split at h
    · have := le_longestRun q cs (current + 1) (max best (current + 1))
      omega
    · rename_i hc
      rw [List.mem_cons, not_or]
      exact ⟨Ne.symm hc, ih h⟩

/-- Without rare controls a string may stand as it is, if no run of quotes is too long. -/
theorem body_itself {cs : List Char} {run best : Nat} (hrare : ∀ c ∈ cs, ¬isRareControl c)
    (h : longestRun '\'' run best cs ≤ 2) : Body '\'' run cs cs := by
  induction cs generalizing run best with
  | nil => exact .nil
  | cons c cs ih =>
    obtain ⟨hc, hcs⟩ := List.forall_mem_cons.mp hrare
    unfold longestRun at h
    split at h
    · rename_i hquote
      subst hquote
      have := le_longestRun '\'' cs (run + 1) (max best (run + 1))
      exact .quote (by omega) (ih hcs h)
    · rename_i hquote
      by_cases hbreak : c = '\n'
      · subst hbreak
        exact .feed (ih hcs h)
      · exact .character (.itself (isPlain_of_not_rare hc hbreak hquote (.inl rfl))) (ih hcs h)

section
variable {q c : Char} {cs raw rest : List Char}

theorem not_isPlain_self (q : Char) : ¬isPlain q q := by
  intro h
  exact (isPlain_iff.mp h).2.1 rfl

theorem newline_ne (hn : c ≠ '\n') (hr : c ≠ '\r') (rest : List Char) :
    newline (c :: rest) = none := by
  rw [newline, orElse_right _ (char_ne hn rest), word_ne hr]

theorem stands_head {w : List Char} (h : Stands q c w) :
    ∃ d tail, w = d :: tail ∧ d ≠ q ∧ (c ≠ '\n' → d ≠ '\n' ∧ d ≠ '\r') := by
  cases h with
  | itself hplain =>
    obtain ⟨hc, hne, -⟩ := isPlain_iff.mp hplain
    refine ⟨c, [], rfl, hne, fun hn => ⟨hn, ?_⟩⟩
    rintro rfl
    exact absurd hc (by decide)
  | @escaped w hquote _ => exact ⟨'\\', w, rfl, by rw [hquote]; decide, fun _ => by decide⟩

variable (hq : q = '"' ∨ q = '\'')

include hq in
/-- A body is up to two quotes, or such a run and then something else. -/
theorem body_quotes {run : Nat} (h : Body q run cs raw) (hrun : run ≤ 2) :
    (∃ k, k + run ≤ 2 ∧ cs = List.replicate k q ∧ raw = List.replicate k q) ∨
      ∃ k d tail, k + run ≤ 2 ∧ raw = List.replicate k q ++ d :: tail ∧ d ≠ q := by
  induction h with
  | nil => exact .inl ⟨0, by omega, rfl, rfl⟩
  | quote hlt _ ih =>
    rcases ih (by omega) with ⟨k, hk, rfl, rfl⟩ | ⟨k, d, tail, hk, rfl, hd⟩
    · exact .inl ⟨k + 1, by omega, rfl, rfl⟩
    · exact .inr ⟨k + 1, d, tail, by omega, rfl, hd⟩
  | feed => exact .inr ⟨0, '\n', _, by omega, rfl, by rcases hq with rfl | rfl <;> decide⟩
  | @character _ _ _ _ raw hw =>
    obtain ⟨d, tail, rfl, hd, -⟩ := stands_head hw
    exact .inr ⟨0, d, tail ++ raw, by omega, rfl, hd⟩

/-- The rest of a multi-line string, the start being read. -/
def ending (q : Char) : Scan (List Char) := do
  let text ← joined (multilinePiece q)
  return text ++ (← closing q)

theorem ending_none (h : multilinePiece q cs = none) : ending q cs = closing q cs := by
  rw [ending, bind_some (joined_none h), run_bind]
  cases closing q cs <;> rfl

theorem ending_of_joined {piece : List Char} (h : joined (multilinePiece q) cs =
    (joined (multilinePiece q) rest).map fun r => (piece ++ r.1, r.2)) :
    ending q cs = (ending q rest).map fun r => (piece ++ r.1, r.2) := by
  rw [ending, run_bind, run_bind, h]
  cases joined (multilinePiece q) rest with
  | none => rfl
  | some r =>
    simp only [Option.map_some, Option.bind_some, run_bind]
    cases closing q r.2 <;> simp [run_pure]

theorem ending_plain (h : isPlain q c) (cs : List Char) :
    ending q (c :: cs) = (ending q cs).map fun r => ([c] ++ r.1, r.2) := by
  have hjoined : joined (multilinePiece q) (c :: cs) =
      (joined (multilinePiece q) cs).map fun r => ([c] ++ r.1, r.2) := joined_plain h cs
  exact ending_of_joined hjoined

-- ---------------------------------------------------------------------------
-- The pieces of a multi-line string
-- ---------------------------------------------------------------------------

theorem innerQuote_ne (h : c ≠ q) (cs : List Char) : innerQuote q (c :: cs) = none := by
  have hchar : (char q *> pure [q]) (c :: cs) = none := seqRight_none (char_ne h cs) _
  rw [innerQuote, hchar, ite_self]

theorem innerQuote_three (q : Char) (cs : List Char) : innerQuote q (q :: q :: q :: cs) = none := by
  simp [innerQuote, List.isPrefixOf]

theorem innerQuote_run {k : Nat} (hk : k < 2) (hc : c ≠ q) (rest : List Char) :
    innerQuote q (q :: (List.replicate k q ++ c :: rest)) =
      some ([q], List.replicate k q ++ c :: rest) := by
  have hthree : (List.replicate 3 q).isPrefixOf (q :: (List.replicate k q ++ c :: rest)) = false := by
    match k with
    | 0 | 1 => simp [List.isPrefixOf, List.replicate_succ, Ne.symm hc]
  rw [innerQuote, hthree]
  exact seqRight_some (char_self q _) _

include hq in
theorem newline_quote (rest : List Char) : newline (q :: rest) = none := by
  rcases hq with rfl | rfl <;> exact newline_ne (by decide) (by decide) rest

include hq in
theorem multilinePiece_run {k : Nat} (hk : k < 2) (hc : c ≠ q) (rest : List Char) :
    multilinePiece q (q :: (List.replicate k q ++ c :: rest)) =
      some ([q], List.replicate k q ++ c :: rest) := by
  rw [multilinePiece, orElse_right _ (span1_none (not_isPlain_self q) _), orElse_right]
  · exact orElse_left _ (innerQuote_run hk hc rest)
  · exact seqRight_none (newline_quote hq _) _

include hq in
theorem multilinePiece_three (cs : List Char) : multilinePiece q (q :: q :: q :: cs) = none := by
  rw [multilinePiece, orElse_right _ (span1_none (not_isPlain_self q) _), orElse_right,
    orElse_right _ (innerQuote_three q cs)]
  · rcases hq with rfl | rfl <;> rfl
  · exact seqRight_none (newline_quote hq _) _

theorem multilinePiece_newline (q : Char) (cs : List Char) :
    multilinePiece q ('\n' :: cs) = some (['\n'], cs) := by
  have hplain : ¬isPlain q '\n' := by
    intro h
    exact absurd (isPlain_iff.mp h).1 (by decide)
  rw [multilinePiece, orElse_right _ (span1_none hplain _)]
  exact orElse_left _ rfl

theorem multilinePiece_escape {w : List Char} (h : Escape c w) (rest : List Char) :
    multilinePiece '"' ('\\' :: (w ++ rest)) = some ([c], rest) := by
  have hcontinuation : (continuation *> pure []) ('\\' :: (w ++ rest)) =
      (none : Option (List Char × List Char)) := by
    obtain ⟨letter, w, rfl, hblank, hn, hr⟩ := escape_head h
    refine seqRight_none ?_ _
    rw [continuation, bind_some (char_self '\\' _), List.cons_append,
      bind_some (blanks_of_not hblank _)]
    exact bind_none (newline_ne hn hr _) _
  rw [multilinePiece, orElse_right _ (span1_none (by decide) _), orElse_right _ rfl,
    orElse_right _ (innerQuote_ne (by decide) _), if_pos rfl, orElse_right _ hcontinuation,
    bind_some (escape_of_escape h rest)]
  rfl

theorem closing_quotes {k : Nat} (hk : k ≤ 2) (hc : c ≠ q) (rest : List Char) :
    closing q (List.replicate (k + 3) q ++ c :: rest) = some (List.replicate k q, c :: rest) := by
  have hmore (extra : Nat) (h : k < extra) :
      closing.close q extra (List.replicate (k + 3) q ++ c :: rest) = none :=
    seqRight_none (word_replicate hc (by omega) rest) _
  have hself : closing.close q k (List.replicate (k + 3) q ++ c :: rest) =
      some (List.replicate k q, c :: rest) :=
    seqRight_some (word_append _ (c :: rest)) _
  rw [closing]
  match k with
  | 0 => rw [orElse_right _ (hmore 2 (by omega)), orElse_right _ (hmore 1 (by omega)), hself]
  | 1 => rw [orElse_right _ (hmore 2 (by omega)), orElse_left _ hself]
  | 2 => rw [orElse_left _ hself]

include hq in
theorem ending_quotes {k : Nat} (hk : k ≤ 2) (hc : c ≠ q) (rest : List Char) :
    ending q (List.replicate k q ++ (List.replicate 3 q ++ c :: rest)) =
      some (List.replicate k q, c :: rest) := by
  have hthree : multilinePiece q (List.replicate (k + 3) q ++ c :: rest) = none := by
    simp only [List.replicate_succ, List.cons_append]
    exact multilinePiece_three hq _
  rw [← List.append_assoc, List.replicate_append_replicate, ending_none hthree,
    closing_quotes hk hc]

include hq in
theorem ending_body {run : Nat} (h : Body q run cs raw) (hrun : run ≤ 2) (hc : c ≠ q)
    (rest : List Char) :
    ending q (raw ++ (List.replicate 3 q ++ c :: rest)) = some (cs, c :: rest) := by
  induction h with
  | nil => exact ending_quotes hq (Nat.zero_le 2) hc rest
  | @quote run cs raw hlt hbody ih =>
    rcases body_quotes hq (.quote hlt hbody) hrun with
      ⟨k, hk, hcs, hraw⟩ | ⟨k, d, tail, hk, hraw, hd⟩
    · -- only quotes are left: they belong to the closing delimiter
      rw [hraw, hcs]
      exact ending_quotes hq (by omega) hc rest
    · cases k with
      | zero => exact absurd (List.cons.inj hraw).1 (Ne.symm hd)
      | succ k =>
        have hsplit : raw ++ (List.replicate 3 q ++ c :: rest) =
            List.replicate k q ++ d :: (tail ++ (List.replicate 3 q ++ c :: rest)) := by
          obtain ⟨-, hraw⟩ := List.cons.inj hraw
          rw [hraw]
          exact List.append_assoc _ _ _
        have hpiece : multilinePiece q (q :: (raw ++ (List.replicate 3 q ++ c :: rest))) =
            some ([q], raw ++ (List.replicate 3 q ++ c :: rest)) := by
          rw [hsplit]
          exact multilinePiece_run hq (by omega) hd _
        rw [List.cons_append, ending_of_joined (joined_some hpiece (by simp)), ih (by omega)]
        rfl
  | @feed _ cs raw hbody ih =>
    have hpiece := multilinePiece_newline q (raw ++ (List.replicate 3 q ++ c :: rest))
    rw [List.cons_append, ending_of_joined (joined_some hpiece (by simp)), ih (Nat.zero_le 2)]
    rfl
  | @character _ d cs w raw hw hbody ih =>
    rw [List.append_assoc]
    cases hw with
    | itself hplain =>
      rw [List.singleton_append, ending_plain hplain, ih (Nat.zero_le 2)]
      rfl
    | @escaped w hquote hescape =>
      subst hquote
      have hpiece := multilinePiece_escape hescape (raw ++ (List.replicate 3 '"' ++ c :: rest))
      have hl := length_lt_append (List.cons_ne_nil '\\' w)
        (raw ++ (List.replicate 3 '"' ++ c :: rest))
      rw [List.cons_append, ending_of_joined (joined_some hpiece hl), ih (Nat.zero_le 2)]
      rfl

include hq in
/-- A string without line feeds does not begin with what a multi-line form drops. -/
theorem newline_body {run : Nat} (h : Body q run cs raw) (hbreak : '\n' ∉ cs) (rest : List Char) :
    newline (raw ++ (List.replicate 3 q ++ rest)) = none := by
  cases h with
  | nil => exact newline_quote hq _
  | quote => exact newline_quote hq _
  | feed => exact absurd List.mem_cons_self hbreak
  | character hw _ =>
    have hc := Ne.symm (List.ne_of_not_mem_cons hbreak)
    obtain ⟨d, tail, rfl, -, hd⟩ := stands_head hw
    exact newline_ne (hd hc).1 (hd hc).2 _

theorem newline_self (rest : List Char) : newline ('\n' :: rest) = some ((), rest) :=
  orElse_left _ (char_self '\n' rest)

theorem multiline_start {found : Option Unit} (h : Scan.optional newline cs = some (found, rest)) :
    multiline q (List.replicate 3 q ++ cs) = ending q rest := by
  simp only [multiline, run_bind, word_append, Option.bind_some, h, ending, joined, run_map]
  cases many (multilinePiece q) rest <;> rfl

include hq in
theorem multiline_body (hbody : Body q 0 cs raw) (hc : c ≠ q) (rest : List Char) :
    multiline q (multilineStart q cs ++ (raw ++ (List.replicate 3 q ++ c :: rest))) =
      some (cs, c :: rest) := by
  rw [multilineStart, List.append_assoc]
  split
  · rw [List.singleton_append, multiline_start (optional_some (newline_self _)),
      ending_body hq hbody (Nat.zero_le 2) hc]
  · rename_i hbreak
    have hnone := newline_body hq hbody (by simpa using hbreak) (c :: rest)
    rw [List.nil_append, multiline_start (optional_none hnone),
      ending_body hq hbody (Nat.zero_le 2) hc]

end

-- ---------------------------------------------------------------------------
-- The form of a string
-- ---------------------------------------------------------------------------

theorem Form.of_spec (cs : List Char) :
    match Form.of cs with
    | .basic => '\n' ∉ cs
    | .literal => (∀ c ∈ cs, ¬isRareControl c) ∧ '\'' ∉ cs ∧ '\n' ∉ cs
    | .multilineBasic => True
    | .multilineLiteral => (∀ c ∈ cs, ¬isRareControl c) ∧ longestRun '\'' 0 0 cs ≤ 2 := by
  have hrare (h : cs.any isRareControl = false) : ∀ c ∈ cs, ¬isRareControl c := by
    simpa using h
  have hof : (Form.of cs = .basic → '\n' ∉ cs) ∧
      (Form.of cs = .literal → cs.any isRareControl = false ∧ '\'' ∉ cs ∧ '\n' ∉ cs) ∧
      (Form.of cs = .multilineLiteral → cs.any isRareControl = false ∧ longestRun '\'' 0 0 cs ≤ 2) := by
    have hsingle : longestRun '\'' 0 0 cs = 0 → '\'' ∉ cs := not_mem_of_longestRun
    unfold Form.of
    grind
  cases h : Form.of cs with
  | basic => exact hof.1 h
  | literal => exact ⟨hrare (hof.2.1 h).1, (hof.2.1 h).2⟩
  | multilineBasic => trivial
  | multilineLiteral => exact ⟨hrare (hof.2.2 h).1, (hof.2.2 h).2⟩

theorem multiline_ne {q c : Char} (h : c ≠ q) (rest : List Char) :
    multiline q (c :: rest) = none :=
  bind_none (word_ne h [q, q] rest) _

/-- An opening quote that is followed by another character, or by a closing
quote and then another, does not open a multi-line string. -/
theorem multiline_one {q c : Char} {cs : List Char} (hq : cs.head? ≠ some q) (hc : c ≠ q)
    (rest : List Char) : multiline q (q :: (cs ++ q :: c :: rest)) = none := by
  have hword : word (List.replicate 3 q) (q :: (cs ++ q :: c :: rest)) = none := by
    cases cs with
    | nil => exact word_replicate hc (by decide) rest (m := 2)
    | cons d cs => exact word_replicate (by simpa using hq) (by decide) _ (m := 1)
  exact bind_none hword _

theorem basic_ne {c : Char} (h : c ≠ '"') (rest : List Char) : basic (c :: rest) = none :=
  bind_none (char_ne h rest) _

theorem text_quoted (s : String) {c : Char} (hdouble : c ≠ '"') (hsingle : c ≠ '\'')
    (rest : List Char) : text (quoted s ++ c :: rest) = some (s, c :: rest) := by
  suffices h : (multiline '"' <|> basic <|> multiline '\'' <|> literal) (quoted s ++ c :: rest) =
      some (s.toList, c :: rest) by
    rw [text, run_map, h, Option.map_some, String.ofList_toList]
  have hform := Form.of_spec s.toList
  unfold quoted
  dsimp only
  split <;> rename_i hof <;> rw [hof] at hform
  · have hbody := spelled_basicBody hform
    simp only [List.cons_append, List.append_assoc, List.nil_append]
    rw [orElse_right _ (multiline_one (spelled_head hbody) hdouble rest)]
    exact orElse_left _ (basic_spelled hbody _)
  · obtain ⟨hrare, hquote, hbreak⟩ := hform
    have hplain : ∀ c ∈ s.toList, isPlain '\'' c := by
      intro c hc
      refine isPlain_of_not_rare (hrare c hc) ?_ ?_ (.inl rfl)
      · rintro rfl
        exact hbreak hc
      · rintro rfl
        exact hquote hc
    have hhead : s.toList.head? ≠ some '\'' := fun h => hquote (List.mem_of_head? h)
    simp only [List.cons_append, List.append_assoc, List.nil_append]
    rw [orElse_right _ (multiline_ne (by decide) _), orElse_right _ (basic_ne (by decide) _),
      orElse_right _ (multiline_one hhead hsingle rest)]
    exact literal_plain hplain _
  · have hbody := body_multilineBasicBody s.toList (Nat.zero_le 2)
    rw [List.append_assoc, List.append_assoc]
    exact orElse_left _ (multiline_body (.inl rfl) hbody hdouble rest)
  · obtain ⟨hrare, hrun⟩ := hform
    have hbody := body_itself hrare hrun
    rw [List.append_assoc, List.append_assoc]
    have hstart : ∃ more, multilineStart '\'' s.toList ++
        (s.toList ++ (['\'', '\'', '\''] ++ c :: rest)) = '\'' :: more := ⟨_, rfl⟩
    obtain ⟨more, hmore⟩ := hstart
    rw [hmore, orElse_right _ (multiline_ne (by decide) _), orElse_right _ (basic_ne (by decide) _),
      ← hmore]
    exact orElse_left _ (multiline_body (.inr rfl) hbody hsingle rest)

end RestQuery.Toml

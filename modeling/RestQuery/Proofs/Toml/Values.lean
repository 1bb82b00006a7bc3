import RestQuery.Proofs.Toml.Counts
import RestQuery.Toml.Line

/-!
# Written values are read back

`Datum.node` is the value that a written datum stands for, and `value_datum`
reads it: strings in any form, lists on one line or on several, and counts.
-/

namespace RestQuery.Toml

open Scan
open Text (toDigits_eq_cons)

def Datum.node : Datum → Node
  | .count n => .scalar (.integer n)
  | .text s => .scalar (.text s)
  | .texts list => .array (list.map fun s => .scalar (.text s))

/-- Counts have to be in the range of integers. -/
def Datum.Writable : Datum → Prop
  | .count n => n < integerBound
  | .text _ => True
  | .texts _ => True

-- ---------------------------------------------------------------------------
-- Strings
-- ---------------------------------------------------------------------------

theorem quoted_head (s : String) :
    ∃ q tail, quoted s = q :: tail ∧ (q = '"' ∨ q = '\'') := by
  unfold quoted
  dsimp only
  split
  · exact ⟨'"', _, rfl, .inl rfl⟩
  · exact ⟨'\'', _, rfl, .inr rfl⟩
  · exact ⟨'"', _, rfl, .inl rfl⟩
  · exact ⟨'\'', _, rfl, .inr rfl⟩

theorem value_of_scalar {cs rest : List Char} {s : Scalar} (h : scalar cs = some (s, rest))
    (depth : Nat) : value depth cs = some (.scalar s, rest) := by
  have hmap : (Node.scalar <$> scalar) cs = some (.scalar s, rest) := map_some h Node.scalar
  cases depth with
  | zero => exact hmap
  | succ depth => exact orElse_left _ hmap

theorem value_quoted (depth : Nat) (s : String) {c : Char} (hdouble : c ≠ '"') (hsingle : c ≠ '\'')
    (rest : List Char) :
    value depth (quoted s ++ c :: rest) = some (.scalar (.text s), c :: rest) :=
  value_of_scalar (orElse_left _ (map_some (text_quoted s hdouble hsingle rest) _)) depth

-- ---------------------------------------------------------------------------
-- Gaps
-- ---------------------------------------------------------------------------

def EndsGap (c : Char) : Prop := ¬isBlank c ∧ c ≠ '\n' ∧ c ≠ '\r' ∧ c ≠ '#'

theorem endsGap_comma : EndsGap ',' := by simp [EndsGap, isBlank]

theorem endsGap_bracket : EndsGap ']' := by simp [EndsGap, isBlank]

theorem endsGap_quote {q : Char} (h : q = '"' ∨ q = '\'') : EndsGap q := by
  rcases h with rfl | rfl <;> simp [EndsGap, isBlank]

def gapPiece : Scan Unit := (span1 isBlank *> pure ()) <|> newline <|> (comment *> newline)

theorem gap_eq : gap = (do let _ ← many gapPiece; return ()) := rfl

theorem gap_of_ends {c : Char} (h : EndsGap c) (rest : List Char) :
    gap (c :: rest) = some ((), c :: rest) := by
  obtain ⟨hblank, hn, hr, hcomment⟩ := h
  have hpiece : gapPiece (c :: rest) = none := by
    rw [gapPiece, orElse_right _ (seqRight_none (span1_none hblank rest) _),
      orElse_right _ (newline_ne hn hr rest)]
    exact seqRight_none (bind_none (char_ne hcomment rest) _) _
  rw [gap_eq, bind_some (many_of_none hpiece)]
  rfl

theorem gap_skip {cs rest : List Char} (h : gapPiece cs = some ((), rest))
    (hl : rest.length < cs.length) : gap cs = gap rest := by
  rw [gap_eq, run_bind, run_bind, many_of_some h hl]
  cases many gapPiece rest <;> rfl

theorem gap_feed (rest : List Char) : gap ('\n' :: rest) = gap rest := by
  refine gap_skip ?_ (by simp)
  rw [gapPiece, orElse_right _ rfl]
  exact orElse_left _ (newline_self rest)

theorem gap_pad {pad : List Char} (hne : pad ≠ []) (hpad : ∀ c ∈ pad, isBlank c) {c : Char}
    (h : EndsGap c) (rest : List Char) : gap (pad ++ c :: rest) = some ((), c :: rest) := by
  have hspan : span1 isBlank (pad ++ c :: rest) = some (pad, c :: rest) :=
    span1_append hne hpad (by rintro _ ⟨⟩; exact h.1)
  have hpiece : gapPiece (pad ++ c :: rest) = some ((), c :: rest) :=
    orElse_left _ (seqRight_some hspan _)
  rw [gap_skip hpiece (length_lt_append hne (c :: rest)), gap_of_ends h]

-- ---------------------------------------------------------------------------
-- Lists
-- ---------------------------------------------------------------------------

theorem value_bracket (depth : Nat) (rest : List Char) : value depth (']' :: rest) = none := by
  cases depth <;> rfl

theorem endsGap_quoted (s : String) (rest : List Char) :
    ∃ q tail, quoted s ++ rest = q :: tail ∧ EndsGap q := by
  obtain ⟨q, tail, hs, hq⟩ := quoted_head s
  exact ⟨q, tail ++ rest, by rw [hs]; rfl, endsGap_quote hq⟩

theorem item_quoted (depth : Nat) (s : String) {c : Char} (hc : c = ',' ∨ c = ']')
    (rest : List Char) :
    (value depth <* gap) (quoted s ++ c :: rest) = some (.scalar (.text s), c :: rest) := by
  rcases hc with rfl | rfl
  · exact seqLeft_some (value_quoted depth s (by simp) (by simp) rest) (gap_of_ends endsGap_comma rest)
  · exact seqLeft_some (value_quoted depth s (by simp) (by simp) rest) (gap_of_ends endsGap_bracket rest)

theorem isBlank_indent : ∀ c ∈ "    ".toList, isBlank c := by simp [isBlank]

/-- An item of a list that is written over several lines, after the line break before it. -/
theorem gap_indent (s : String) (rest : List Char) :
    gap ('\n' :: ("    ".toList ++ (quoted s ++ rest))) = some ((), quoted s ++ rest) := by
  obtain ⟨q, tail, hq, hends⟩ := endsGap_quoted s rest
  rw [gap_feed, hq, gap_pad (by simp) isBlank_indent hends]

theorem comma_bracket (rest : List Char) :
    (char ',' *> gap) (',' :: '\n' :: ']' :: rest) = some ((), ']' :: rest) := by
  rw [seqRight_some (char_self ',' _), gap_feed, gap_of_ends endsGap_bracket]

def itemLines (list : List String) : List Char :=
  list.flatMap fun s => "    ".toList ++ quoted s ++ ",\n".toList

/-- What is left of a list after an item: the comma, the other items, the bracket. -/
theorem many_itemLines (depth : Nat) (list : List String) (rest : List Char) :
    many (char ',' *> gap *> (value depth <* gap)) (',' :: '\n' :: (itemLines list ++ ']' :: rest)) =
      some (list.map fun s => .scalar (.text s), ',' :: '\n' :: ']' :: rest) := by
  induction list with
  | nil =>
    rw [itemLines, List.flatMap_nil, List.nil_append]
    refine many_of_none ?_
    rw [seqRight_some (comma_bracket rest)]
    exact seqLeft_none (value_bracket depth rest) gap
  | cons s list ih =>
    have hlines : itemLines (s :: list) ++ ']' :: rest =
        "    ".toList ++ (quoted s ++ ',' :: '\n' :: (itemLines list ++ ']' :: rest)) := by
      simp [itemLines]
    have hitem : (char ',' *> gap *> (value depth <* gap))
        (',' :: '\n' :: (itemLines (s :: list) ++ ']' :: rest)) =
        some (.scalar (.text s), ',' :: '\n' :: (itemLines list ++ ']' :: rest)) := by
      have hcomma := (seqRight_some (char_self ',' _) gap).trans
        (gap_indent s (',' :: '\n' :: (itemLines list ++ ']' :: rest)))
      rw [hlines, seqRight_some hcomma, item_quoted depth s (.inl rfl)]
    have hl := length_lt_append (List.cons_ne_nil ',' ('\n' :: ("    ".toList ++ quoted s)))
      (',' :: '\n' :: (itemLines list ++ ']' :: rest))
    rw [List.cons_append, List.cons_append, List.append_assoc, ← hlines] at hl
    rw [many_of_some hitem hl, ih]
    rfl

theorem separated_cons {α : Type} {p : Scan α} {separator : Scan Unit} {cs rest : List Char} {a : α}
    (h : p cs = some (a, rest)) :
    separated separator p cs = (many (separator *> p) rest).map fun r => (a :: r.1, r.2) := by
  rw [separated, bind_some h, run_bind]
  cases many (separator *> p) rest <;> rfl

theorem array_nil (item : Scan Node) (hitem : ∀ rest, item (']' :: rest) = none) (rest : List Char) :
    array item ('[' :: ']' :: rest) = some (.array [], rest) := by
  have hitems : Scan.optional (separated (char ',' *> gap) (item <* gap)) (']' :: rest) =
      some (none, ']' :: rest) :=
    optional_none (bind_none (seqLeft_none (hitem rest) gap) _)
  simp [array, run_bind, gap_of_ends endsGap_bracket, hitems, run_map]

theorem array_items {item : Scan Node} {cs mid last rest : List Char} {items : List Node}
    {found : Option Unit} (hgap : gap cs = some ((), mid))
    (hitems : separated (char ',' *> gap) (item <* gap) mid = some (items, last))
    (hlast : Scan.optional (char ',' *> gap) last = some (found, ']' :: rest)) :
    array item ('[' :: cs) = some (.array items, rest) := by
  simp [array, run_bind, hgap, optional_some hitems, hlast, run_map]

theorem value_of_array {depth : Nat} {cs rest : List Char} {n : Node}
    (h : array (value depth) ('[' :: cs) = some (n, rest)) :
    value (depth + 1) ('[' :: cs) = some (n, rest) := by
  have hscalar : (Node.scalar <$> scalar) ('[' :: cs) = none := rfl
  rw [value, orElse_right _ hscalar]
  exact orElse_left _ h

theorem value_texts (depth : Nat) (list : List String) (rest : List Char) :
    value (depth + 1) ((Datum.texts list).chars ++ rest) = some ((Datum.texts list).node, rest) := by
  match list with
  | [] => exact value_of_array (array_nil (value depth) (value_bracket depth) rest)
  | [s] =>
    obtain ⟨q, tail, hq, hends⟩ := endsGap_quoted s (']' :: rest)
    have hitems : separated (char ',' *> gap) (value depth <* gap) (quoted s ++ ']' :: rest) =
        some ([.scalar (.text s)], ']' :: rest) := by
      rw [separated_cons (item_quoted depth s (.inr rfl) rest),
        many_of_none rfl]
      rfl
    have hlast : Scan.optional (char ',' *> gap) (']' :: rest) = some (none, ']' :: rest) :=
      optional_none rfl
    have hgap : gap (quoted s ++ ']' :: rest) = some ((), quoted s ++ ']' :: rest) := by
      rw [hq, gap_of_ends hends]
    have hchars : (Datum.texts [s]).chars ++ rest = '[' :: (quoted s ++ ']' :: rest) := by
      simp [Datum.chars]
    rw [hchars]
    exact value_of_array (array_items hgap hitems hlast)
  | s :: t :: list =>
    have hchars : (Datum.texts (s :: t :: list)).chars ++ rest =
        '[' :: '\n' :: ("    ".toList ++
          (quoted s ++ ',' :: '\n' :: (itemLines (t :: list) ++ ']' :: rest))) := by
      simp [Datum.chars, itemLines]
    have hgap := gap_indent s (',' :: '\n' :: (itemLines (t :: list) ++ ']' :: rest))
    have hitems : separated (char ',' *> gap) (value depth <* gap)
        (quoted s ++ ',' :: '\n' :: (itemLines (t :: list) ++ ']' :: rest)) =
        some ((s :: t :: list).map fun s => .scalar (.text s), ',' :: '\n' :: ']' :: rest) := by
      rw [separated_cons (item_quoted depth s (.inl rfl) _),
        many_itemLines]
      rfl
    have hlast : Scan.optional (char ',' *> gap) (',' :: '\n' :: ']' :: rest) =
        some (some (), ']' :: rest) :=
      optional_some (comma_bracket rest)
    rw [hchars]
    exact value_of_array (array_items hgap hitems hlast)

-- ---------------------------------------------------------------------------
-- All of them
-- ---------------------------------------------------------------------------

theorem value_datum (depth : Nat) {d : Datum} (h : d.Writable) (rest : List Char) :
    value (depth + 1) (d.chars ++ '\n' :: rest) = some (d.node, '\n' :: rest) := by
  cases d with
  | count n => exact value_of_scalar (scalar_toDigits h rest) (depth + 1)
  | text s => exact value_quoted (depth + 1) s (by simp) (by simp) rest
  | texts list => exact value_texts depth list ('\n' :: rest)

theorem chars_head (d : Datum) : ∃ c cs, d.chars = c :: cs ∧ ¬isBlank c := by
  cases d with
  | count n =>
    obtain ⟨c, ds, hds, hc⟩ := toDigits_eq_cons n
    refine ⟨c, ds, hds, ?_⟩
    rintro hblank
    rcases (by simpa [isBlank] using hblank : c = ' ' ∨ c = '\t') with rfl | rfl <;> simp at hc
  | text s =>
    obtain ⟨q, tail, hs, hq⟩ := quoted_head s
    refine ⟨q, tail, hs, ?_⟩
    rcases hq with rfl | rfl <;> simp [isBlank]
  | texts list =>
    have hbracket : ¬isBlank '[' := by simp [isBlank]
    cases list with
    | nil => exact ⟨'[', _, rfl, hbracket⟩
    | cons s list =>
      cases list with
      | nil => exact ⟨'[', _, rfl, hbracket⟩
      | cons t list => exact ⟨'[', _, rfl, hbracket⟩

end RestQuery.Toml

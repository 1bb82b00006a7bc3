import RestQuery.Proofs.Toml.Values

/-!
# Written lines are read back

`Line.statement` is the statement that a line makes. A line is read back if its
keys are bare and its value can be written, and so is a document of such lines
(`statements_write`), the empty lines before its headers apart.
-/

namespace RestQuery.Toml

open Scan

def IsBare (key : String) : Prop := key.toList ≠ [] ∧ ∀ c ∈ key.toList, isBareChar c

namespace Line

def Writable : Line → Prop
  | .entry key value => IsBare key ∧ value.Writable
  | .element path => path ≠ [] ∧ path.length < depthLimit ∧ ∀ key ∈ path, IsBare key

def statement : Line → Statement
  | .entry key value => .entry ([], key) value.node
  | .element path => .element (path.dropLast, path.getLast?.getD "")

end Line

-- ---------------------------------------------------------------------------
-- Keys
-- ---------------------------------------------------------------------------

variable {c : Char}

def segment : Scan String := blanks *> keyPart <* blanks

theorem not_isBlank_of_bare (h : isBareChar c) : ¬isBlank c := by
  intro hblank
  rcases (by simpa [isBlank] using hblank : c = ' ' ∨ c = '\t') with rfl | rfl <;>
    simp [isBareChar] at h

theorem isBare_head {key : String} (h : IsBare key) :
    ∃ c cs, key.toList = c :: cs ∧ isBareChar c := by
  obtain ⟨c, cs, hcs⟩ := List.exists_cons_of_ne_nil h.1
  exact ⟨c, cs, hcs, h.2 c (hcs ▸ List.mem_cons_self)⟩

theorem segment_bare {key : String} (h : IsBare key) (pad : List Char) (hpad : ∀ c ∈ pad, isBlank c)
    (hblank : ¬isBlank c) (hbare : ¬isBareChar c) (rest : List Char) :
    segment (key.toList ++ (pad ++ c :: rest)) = some (key, c :: rest) := by
  have hend : ∀ d ∈ (pad ++ c :: rest).head?, ¬isBareChar d := by
    cases pad with
    | nil =>
      rintro d ⟨⟩
      exact hbare
    | cons p pad =>
      rintro d ⟨⟩ hd
      exact not_isBlank_of_bare hd (hpad p List.mem_cons_self)
  have hpart : keyPart (key.toList ++ (pad ++ c :: rest)) = some (key, pad ++ c :: rest) := by
    rw [keyPart, map_some (orElse_left _ (span1_append h.1 h.2 hend)), String.ofList_toList]
  have hblanks : blanks (key.toList ++ (pad ++ c :: rest)) =
      some ((), key.toList ++ (pad ++ c :: rest)) := by
    obtain ⟨d, ds, hds, hd⟩ := isBare_head h
    rw [hds]
    exact blanks_of_not (not_isBlank_of_bare hd) _
  have hafter : blanks (pad ++ c :: rest) = some ((), c :: rest) :=
    blanks_append hpad (by rintro d ⟨⟩; exact hblank)
  exact seqLeft_some ((seqRight_some hblanks keyPart).trans hpart) hafter

theorem segments_head (path : List String) (rest : List Char) :
    ∃ c tail, path.flatMap (fun key => '.' :: key.toList) ++ ']' :: rest = c :: tail ∧
      ¬isBlank c ∧ ¬isBareChar c := by
  cases path with
  | nil => exact ⟨']', rest, rfl, by simp [isBlank], by simp [isBareChar]⟩
  | cons next path => exact ⟨'.', _, rfl, by simp [isBlank], by simp [isBareChar]⟩

theorem many_segments {path : List String} (h : ∀ key ∈ path, IsBare key) (rest : List Char) :
    many (char '.' *> segment) (path.flatMap (fun key => '.' :: key.toList) ++ ']' :: rest) =
      some (path, ']' :: rest) := by
  induction path with
  | nil => exact many_of_none rfl
  | cons key path ih =>
    rw [List.forall_mem_cons] at h
    obtain ⟨d, tail, htail, hblank, hbare⟩ := segments_head path rest
    have hstep : (char '.' *> segment) ('.' :: (key.toList ++ d :: tail)) = some (key, d :: tail) := by
      rw [seqRight_some (char_self '.' _)]
      exact segment_bare h.1 [] nofun hblank hbare tail
    rw [List.flatMap_cons, List.append_assoc, htail, List.cons_append,
      many_of_some hstep (length_lt_append (List.cons_ne_nil '.' key.toList) (d :: tail)), ← htail,
      ih h.2]
    rfl

theorem toList_intercalate_cons (key : String) (path : List String) :
    (".".intercalate (key :: path)).toList =
      key.toList ++ path.flatMap fun key => '.' :: key.toList := by
  induction path generalizing key with
  | nil => simp
  | cons next path ih =>
    rw [String.intercalate_cons_cons, String.toList_append, String.toList_append, ih]
    simp

theorem key_path {path : List String} (h : (Line.element path).Writable) (rest : List Char) :
    key ((".".intercalate path).toList ++ ']' :: rest) =
      some ((path.dropLast, path.getLast?.getD ""), ']' :: rest) := by
  obtain ⟨hne, hlength, hbare⟩ := h
  obtain ⟨first, more, rfl⟩ := List.exists_cons_of_ne_nil hne
  have hmore := many_segments (fun key hkey => hbare key (List.mem_cons_of_mem _ hkey)) rest
  have hfirst : segment ((".".intercalate (first :: more)).toList ++ ']' :: rest) =
      some (first, more.flatMap (fun key => '.' :: key.toList) ++ ']' :: rest) := by
    rw [toList_intercalate_cons, List.append_assoc]
    obtain ⟨c, tail, htail, hblank, hbar⟩ := segments_head more rest
    rw [htail]
    exact segment_bare (hbare first List.mem_cons_self) [] nofun hblank hbar tail
  have hlast : (first :: more).getLast? = some ((first :: more).getLast?.getD "") := by
    rw [List.getLast?_eq_some_getLast hne]
    rfl
  have hparts : Key.ofParts? (first :: more) =
      some ((first :: more).dropLast, (first :: more).getLast?.getD "") := by
    rw [Key.ofParts?, if_pos hlength, hlast]
    rfl
  refine filterMap_some ?_ hparts
  exact (separated_cons hfirst).trans (congrArg (Option.map _) hmore)

theorem key_bare {key : String} (h : IsBare key) (rest : List Char) :
    Toml.key (key.toList ++ ' ' :: '=' :: rest) = some (([], key), '=' :: rest) := by
  have hkey : segment (key.toList ++ ' ' :: '=' :: rest) = some (key, '=' :: rest) :=
    segment_bare h [' '] (by simp [isBlank]) (by simp [isBlank]) (by simp [isBareChar]) rest
  refine filterMap_some (a := [key]) ?_ rfl
  exact (separated_cons hkey).trans (congrArg (Option.map _) (many_of_none rfl))

-- ---------------------------------------------------------------------------
-- Lines
-- ---------------------------------------------------------------------------

theorem element_path {path : List String} (h : (Line.element path).Writable) (rest : List Char) :
    element ((Line.element path).chars ++ rest) = some ((Line.element path).statement, '\n' :: rest) := by
  have hchars : (Line.element path).chars ++ rest =
      ['[', '['] ++ ((".".intercalate path).toList ++ ']' :: (']' :: '\n' :: rest)) := by
    simp [Line.chars]
  rw [hchars, element, bind_some (word_append _ _), bind_some (key_path h _)]
  rfl

theorem entry_bare {key : String} {d : Datum} (h : (Line.entry key d).Writable) (rest : List Char) :
    entry ((Line.entry key d).chars ++ rest) = some ((Line.entry key d).statement, '\n' :: rest) := by
  have hchars : (Line.entry key d).chars ++ rest =
      key.toList ++ ' ' :: '=' :: ([' '] ++ (d.chars ++ '\n' :: rest)) := by
    simp [Line.chars]
  have hblanks : blanks ([' '] ++ (d.chars ++ '\n' :: rest)) = some ((), d.chars ++ '\n' :: rest) := by
    obtain ⟨c, cs, hcs, hc⟩ := chars_head d
    refine blanks_append (by simp [isBlank]) ?_
    rw [hcs]
    rintro _ ⟨⟩
    exact hc
  have hvalue : value (depthLimit - 1) (d.chars ++ '\n' :: rest) = some (d.node, '\n' :: rest) :=
    value_datum (depthLimit - 2) h.2 rest
  have hbinding : binding (value (depthLimit - 1)) ((Line.entry key d).chars ++ rest) =
      some ((([], key), d.node), '\n' :: rest) := by
    rw [hchars, binding, bind_some (key_bare h.1 _), bind_some (char_self '=' _), bind_some hblanks,
      bind_some hvalue]
    rfl
  rw [entry, bind_some hbinding]
  rfl

theorem line_of_statement {c : Char} {cs rest : List Char} {s : Statement} (hc : ¬isBlank c)
    (h : (element <|> header <|> entry) (c :: cs) = some (s, '\n' :: rest)) :
    line (c :: cs) = some (some s, rest) := by
  rw [line, bind_some (blanks_of_not hc cs)]
  exact orElse_left _ (seqLeft_some (map_some h some) rfl)

theorem line_chars {l : Line} (h : l.Writable) (rest : List Char) :
    line (l.chars ++ rest) = some (some l.statement, rest) := by
  cases l with
  | entry key d =>
    obtain ⟨c, cs, hcs, hc⟩ := isBare_head h.1
    have hcons : ∃ tail, (Line.entry key d).chars ++ rest = c :: tail := by
      refine ⟨cs ++ (" = ".toList ++ (d.chars ++ '\n' :: rest)), ?_⟩
      simp [Line.chars, hcs]
    obtain ⟨tail, htail⟩ := hcons
    have hbracket : c ≠ '[' := by
      rintro rfl
      simp [isBareChar] at hc
    have helement : element (c :: tail) = none := bind_none (word_ne hbracket ['['] tail) _
    have hheader : header (c :: tail) = none := bind_none (char_ne hbracket tail) _
    rw [htail]
    refine line_of_statement (not_isBlank_of_bare hc) ?_
    rw [orElse_right _ helement, orElse_right _ hheader, ← htail]
    exact entry_bare h rest
  | element path =>
    exact line_of_statement (c := '[') (by simp [isBlank]) (orElse_left _ (element_path h rest))

theorem line_empty (rest : List Char) : line ('\n' :: rest) = some (none, rest) := rfl

-- ---------------------------------------------------------------------------
-- Documents
-- ---------------------------------------------------------------------------

theorem chars_ne_nil (l : Line) : l.chars ≠ [] := by
  cases l <;> simp [Line.chars]

theorem many_line {l : Line} (h : l.Writable) (rest : List Char) :
    many line (l.chars ++ rest) =
      (many line rest).map fun r => (some l.statement :: r.1, r.2) := by
  exact many_of_some (line_chars h rest) (length_lt_append (chars_ne_nil l) rest)

/-- Lines after the first, the headers among them each after an empty line. -/
theorem many_lines {lines : List Line} (h : ∀ l ∈ lines, l.Writable) :
    ∃ found, many line (lines.flatMap fun l => if l.isHeader then '\n' :: l.chars else l.chars) =
      some (found, []) ∧ found.filterMap id = lines.map Line.statement := by
  induction lines with
  | nil => exact ⟨[], many_of_none rfl, rfl⟩
  | cons l lines ih =>
    rw [List.forall_mem_cons] at h
    obtain ⟨found, hfound, hstatements⟩ := ih h.2
    rw [List.flatMap_cons]
    split
    next =>
      refine ⟨none :: some l.statement :: found, ?_, ?_⟩
      · rw [List.cons_append, many_of_some (line_empty _) (Nat.lt_succ_self _), many_line h.1, hfound]
        rfl
      · exact congrArg (l.statement :: ·) hstatements
    next =>
      refine ⟨some l.statement :: found, ?_, ?_⟩
      · rw [many_line h.1, hfound]
        rfl
      · exact congrArg (l.statement :: ·) hstatements

theorem statements_write {lines : List Line} (h : ∀ l ∈ lines, l.Writable) :
    statements (Line.write lines) = some (lines.map Line.statement, []) := by
  obtain ⟨found, hfound, hstatements⟩ :
      ∃ found, many line (Line.write lines) = some (found, []) ∧
        found.filterMap id = lines.map Line.statement := by
    cases lines with
    | nil => exact ⟨[], many_of_none rfl, rfl⟩
    | cons l lines =>
      rw [List.forall_mem_cons] at h
      obtain ⟨found, hfound, hstatements⟩ := many_lines h.2
      refine ⟨some l.statement :: found, ?_, ?_⟩
      · rw [Line.write, many_line h.1, hfound]
        rfl
      · exact congrArg (l.statement :: ·) hstatements
  rw [statements, bind_some hfound, ← hstatements]
  rfl

end RestQuery.Toml

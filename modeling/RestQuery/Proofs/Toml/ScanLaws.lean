import RestQuery.Text.Cut
import RestQuery.Toml.Text

/-!
# How scans read

What each combinator does with a text: a chain reads on where the scan before
stopped, a choice is its first scan that does not refuse, and a repetition goes
on while there is a step. `Scan.joined` is a repetition of pieces of a text
with the pieces put together; there a run of plain characters may be taken one
by one (`joined_plain`).
-/

namespace RestQuery.Toml

namespace Scan

variable {α β : Type} {cs rest : List Char}

theorem length_lt_append {front : List Char} (h : front ≠ []) (rest : List Char) :
    rest.length < (front ++ rest).length := by
  rw [List.length_append]
  exact Nat.lt_add_of_pos_left (List.length_pos_iff.mpr h)

-- ---------------------------------------------------------------------------
-- Chains and choices
-- ---------------------------------------------------------------------------

section

variable {p : Scan α} {a : α}

theorem bind_some (h : p cs = some (a, rest)) (f : α → Scan β) : (p >>= f) cs = f a rest := by
  rw [run_bind, h]
  rfl

theorem bind_none (h : p cs = none) (f : α → Scan β) : (p >>= f) cs = none := by
  rw [run_bind, h]
  rfl

theorem map_some (h : p cs = some (a, rest)) (f : α → β) : (f <$> p) cs = some (f a, rest) := by
  rw [run_map, h]
  rfl

theorem map_none (h : p cs = none) (f : α → β) : (f <$> p) cs = none := by
  rw [run_map, h]
  rfl

theorem seqRight_some (h : p cs = some (a, rest)) (q : Scan β) : (p *> q) cs = q rest :=
  bind_some h fun _ => q

theorem seqRight_none (h : p cs = none) (q : Scan β) : (p *> q) cs = none :=
  bind_none h fun _ => q

theorem seqLeft_some {q : Scan β} {b : β} {mid : List Char} (h : p cs = some (a, mid))
    (hq : q mid = some (b, rest)) : (p <* q) cs = some (a, rest) :=
  (bind_some h fun a => q >>= fun _ => pure a).trans (bind_some hq fun _ => pure a)

theorem seqLeft_none (h : p cs = none) (q : Scan β) : (p <* q) cs = none :=
  bind_none h fun a => q >>= fun _ => pure a

theorem orElse_left (q : Scan α) {r : α × List Char} (h : p cs = some r) :
    (p <|> q) cs = some r := by
  rw [run_orElse, h, Option.some_or]

theorem orElse_right (q : Scan α) (h : p cs = none) : (p <|> q) cs = q cs := by
  rw [run_orElse, h, Option.none_or]

theorem filterMap_ok {f : α → Option β} {b : β} (h : filterMap f p cs = some (b, rest)) :
    ∃ a, p cs = some (a, rest) ∧ f a = some b := by
  cases hp : p cs with
  | none =>
    rw [filterMap, bind_none hp] at h
    cases h
  | some r =>
    obtain ⟨a, after⟩ := r
    rw [filterMap, bind_some hp] at h
    cases hf : f a with
    | none =>
      rw [hf] at h
      cases h
    | some b' =>
      rw [hf] at h
      cases h
      exact ⟨a, rfl, hf⟩

theorem filterMap_some {f : α → Option β} {b : β} (h : p cs = some (a, rest)) (hf : f a = some b) :
    filterMap f p cs = some (b, rest) := by
  rw [filterMap, bind_some h, hf]
  rfl

theorem optional_some (h : p cs = some (a, rest)) : optional p cs = some (some a, rest) :=
  orElse_left _ (map_some h some)

theorem optional_none (h : p cs = none) : optional p cs = some (none, cs) :=
  orElse_right _ (map_none h some)

end

-- ---------------------------------------------------------------------------
-- Characters
-- ---------------------------------------------------------------------------

@[simp] theorem char_self (c : Char) (cs : List Char) : char c (c :: cs) = some ((), cs) := by
  simp [char, run_bind, run_pure]

theorem char_ne {c d : Char} (h : d ≠ c) (cs : List Char) : char c (d :: cs) = none := by
  simp [char, run_bind, h]

@[simp] theorem word_append (text rest : List Char) : word text (text ++ rest) = some ((), rest) := by
  rw [word, Text.isPrefixOf?_append]
  rfl

theorem word_ne {c d : Char} (h : d ≠ c) (text cs : List Char) : word (c :: text) (d :: cs) = none := by
  rw [word, Text.isPrefixOf?_cons_ne h.symm]
  rfl

theorem word_cons (c : Char) (text cs : List Char) : word (c :: text) (c :: cs) = word text cs := by
  rw [word, Text.isPrefixOf?_cons_self]
  rfl

theorem word_replicate {c d : Char} (h : d ≠ c) {n m : Nat} (hlt : m < n) (rest : List Char) :
    word (List.replicate n c) (List.replicate m c ++ d :: rest) = none := by
  induction m generalizing n with
  | zero =>
    obtain ⟨n, rfl⟩ := Nat.exists_eq_succ_of_ne_zero (Nat.ne_of_gt hlt)
    exact word_ne h _ _
  | succ m ih =>
    obtain ⟨n, rfl⟩ := Nat.exists_eq_succ_of_ne_zero (Nat.ne_of_gt (Nat.zero_lt_of_lt hlt))
    rw [List.replicate_succ, List.replicate_succ, List.cons_append, word_cons]
    exact ih (Nat.lt_of_succ_lt_succ hlt)

theorem span_append {p : Char → Bool} {front : List Char} (h : ∀ c ∈ front, p c)
    (hrest : ∀ c ∈ rest.head?, ¬p c) : span p (front ++ rest) = some (front, rest) := by
  have htake : rest.takeWhile p = [] := by
    cases rest with
    | nil => rfl
    | cons c rest => exact List.takeWhile_cons_of_neg (hrest c rfl)
  have hdrop : rest.dropWhile p = rest := by
    cases rest with
    | nil => rfl
    | cons c rest => exact List.dropWhile_cons_of_neg (hrest c rfl)
  rw [span, List.takeWhile_append_of_pos h, List.dropWhile_append_of_pos h, htake, hdrop,
    List.append_nil]

theorem span1_pos {p : Char → Bool} {c : Char} (h : p c) (cs : List Char) :
    span1 p (c :: cs) = some (c :: cs.takeWhile p, cs.dropWhile p) := by
  have hsatisfy : satisfy p (c :: cs) = some (c, cs) := if_pos h
  rw [span1, bind_some hsatisfy]
  rfl

theorem span1_none {p : Char → Bool} {c : Char} (h : ¬p c) (cs : List Char) :
    span1 p (c :: cs) = none :=
  bind_none (if_neg h) _

theorem span1_append {p : Char → Bool} {front : List Char} (hne : front ≠ [])
    (h : ∀ c ∈ front, p c) (hrest : ∀ c ∈ rest.head?, ¬p c) :
    span1 p (front ++ rest) = some (front, rest) := by
  cases front with
  | nil => exact absurd rfl hne
  | cons c front =>
    rw [List.forall_mem_cons] at h
    have hspan := Option.some.inj (span_append h.2 hrest)
    obtain ⟨htake, hdrop⟩ := Prod.mk.inj hspan
    rw [List.cons_append, span1_pos h.1, htake, hdrop]

-- ---------------------------------------------------------------------------
-- Pieces put together
-- ---------------------------------------------------------------------------

def joined (p : Scan (List Char)) : Scan (List Char) := List.flatten <$> many p

variable {p : Scan (List Char)}

theorem joined_none (h : p cs = none) : joined p cs = some ([], cs) :=
  map_some (many_of_none h) List.flatten

theorem many_of_joined {text : List Char} (h : joined p cs = some (text, rest)) :
    ∃ pieces, many p cs = some (pieces, rest) ∧ pieces.flatten = text := by
  rw [joined, run_map] at h
  obtain ⟨⟨pieces, rest'⟩, hmany, hr⟩ := Option.map_eq_some_iff.mp h
  obtain ⟨rfl, rfl⟩ := Prod.mk.inj hr
  exact ⟨pieces, hmany, rfl⟩

theorem joined_some {piece : List Char} (h : p cs = some (piece, rest))
    (hl : rest.length < cs.length) :
    joined p cs = (joined p rest).map fun r => (piece ++ r.1, r.2) := by
  rw [joined, run_map, many_of_some h hl, run_map]
  cases many p rest <;> rfl

/-- A run of plain characters is one piece, and the text is the same as if each
character were one. -/
theorem joined_plain {plain : Char → Bool} {q : Scan (List Char)} {c : Char} (h : plain c)
    (cs : List Char) :
    joined (span1 plain <|> q) (c :: cs) =
      (joined (span1 plain <|> q) cs).map fun r => (c :: r.1, r.2) := by
  have hrun (d : Char) (ds : List Char) (hd : plain d) : joined (span1 plain <|> q) (d :: ds) =
      (joined (span1 plain <|> q) (ds.dropWhile plain)).map
        fun r => (d :: ds.takeWhile plain ++ r.1, r.2) := by
    refine joined_some (orElse_left _ (span1_pos hd ds)) ?_
    exact Nat.lt_succ_of_le (List.dropWhile_sublist plain).length_le
  rw [hrun c cs h]
  cases cs with
  | nil => rfl
  | cons d ds =>
    by_cases hd : plain d
    · rw [hrun d ds hd, List.takeWhile_cons_of_pos hd, List.dropWhile_cons_of_pos hd, Option.map_map]
      rfl
    · rw [List.takeWhile_cons_of_neg hd, List.dropWhile_cons_of_neg hd]
      rfl

end Scan

theorem blanks_append {pad rest : List Char} (h : ∀ c ∈ pad, isBlank c)
    (hrest : ∀ c ∈ rest.head?, ¬isBlank c) : blanks (pad ++ rest) = some ((), rest) :=
  Scan.bind_some (Scan.span_append h hrest) fun _ => pure ()

theorem blanks_of_not {c : Char} (h : ¬isBlank c) (rest : List Char) :
    blanks (c :: rest) = some ((), c :: rest) := by
  have hnil : ∀ c ∈ ([] : List Char), isBlank c := nofun
  exact blanks_append hnil (by rintro _ ⟨⟩; exact h)

end RestQuery.Toml

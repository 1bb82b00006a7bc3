/-!
# Cutting a text

`cut? sep` cuts a list at the first `sep`, which is dropped; `trimEnd p` drops
the longest run at the end, and `endRun p` is that run. Cutting at every
separator is `List.splitOn`.
-/

namespace RestQuery.Text

def cut? [DecidableEq α] (sep : α) : List α → Option (List α × List α)
  | [] => none
  | c :: cs => if c = sep then some ([], cs) else (cut? sep cs).map fun p => (c :: p.1, p.2)

theorem cut?_eq_some [DecidableEq α] {sep : α} {cs before after : List α} :
    cut? sep cs = some (before, after) ↔ cs = before ++ sep :: after ∧ sep ∉ before := by
  induction cs generalizing before with
  | nil => simp [cut?]
  | cons c cs ih =>
    by_cases h : c = sep
    · subst h
      cases before <;> simp [cut?, eq_comm]
      rintro rfl; simp
    · cases before with
      | nil => simp [cut?, h]
      | cons b before => simp [cut?, h, Prod.ext_iff, ih, eq_comm (a := sep)]; grind

@[simp] theorem cut?_append [DecidableEq α] {sep : α} {before after : List α}
    (h : sep ∉ before) : cut? sep (before ++ sep :: after) = some (before, after) :=
  cut?_eq_some.mpr ⟨rfl, h⟩

/-- A list without `sep` stands wholly before it. -/
def cut [DecidableEq α] (sep : α) (cs : List α) : List α × List α :=
  (cut? sep cs).getD (cs, [])

def trimEnd (p : α → Bool) (cs : List α) : List α :=
  (cs.reverse.dropWhile p).reverse

@[simp] theorem trimEnd_nil (p : α → Bool) : trimEnd p [] = [] := rfl

theorem trimEnd_append_of_all {p : α → Bool} {cs tail : List α} (h : ∀ c ∈ tail, p c) :
    trimEnd p (cs ++ tail) = trimEnd p cs := by
  simp only [trimEnd, List.reverse_append]
  rw [List.dropWhile_append_of_pos (by simpa using h)]

theorem trimEnd_eq_self {p : α → Bool} {cs : List α} (h : ∀ c ∈ cs.getLast?, ¬p c) :
    trimEnd p cs = cs := by
  rw [← List.head?_reverse] at h
  cases hr : cs.reverse with
  | nil => simp_all
  | cons c rest =>
    rw [trimEnd, hr, List.dropWhile_cons_of_neg (h c (by simp [hr])), ← hr, List.reverse_reverse]

def endRun (p : α → Bool) (cs : List α) : List α :=
  (cs.reverse.takeWhile p).reverse

@[simp] theorem trimEnd_append_endRun (p : α → Bool) (cs : List α) :
    trimEnd p cs ++ endRun p cs = cs := by
  simp [trimEnd, endRun, ← List.reverse_append]

theorem of_mem_endRun {p : α → Bool} {cs : List α} : ∀ c ∈ endRun p cs, p c := by
  intro c hc
  exact List.all_eq_true.mp List.all_takeWhile c (List.mem_reverse.mp hc)

theorem not_of_getLast?_trimEnd {p : α → Bool} {cs : List α} :
    ∀ c ∈ (trimEnd p cs).getLast?, ¬p c := by
  intro c hc
  have hhead := List.head?_dropWhile_not p cs.reverse
  rw [trimEnd, List.getLast?_reverse] at hc
  rw [Option.mem_def.mp hc] at hhead
  simpa using hhead

def trim (p : α → Bool) (cs : List α) : List α :=
  trimEnd p (cs.dropWhile p)

theorem trimEnd_append_of_ne_nil {p : α → Bool} {front cs : List α} (h : trimEnd p cs ≠ []) :
    trimEnd p (front ++ cs) = front ++ trimEnd p cs := by
  have hrev : cs.reverse.dropWhile p ≠ [] := by simpa [trimEnd] using h
  rw [trimEnd, List.reverse_append, List.dropWhile_append, if_neg (by simpa using hrev), trimEnd,
    List.reverse_append, List.reverse_reverse]

theorem not_mem_of_mem_splitOn [DecidableEq α] {sep : α} {cs part : List α}
    (h : part ∈ cs.splitOn sep) : sep ∉ part := by
  induction cs generalizing part with
  | nil => simp_all
  | cons c cs ih =>
    rw [List.splitOn_cons_eq_if_modifyHead] at h
    split at h
    · rcases List.mem_cons.mp h with rfl | h
      · simp
      · exact ih h
    · rename_i hc
      obtain ⟨head, tail, hsplit⟩ := List.exists_cons_of_ne_nil (List.splitOn_ne_nil sep cs)
      simp only [hsplit, List.modifyHead_cons, List.mem_cons] at h ih
      rcases h with rfl | h
      · simpa [show sep ≠ c by rintro rfl; simp at hc] using ih (.inl rfl)
      · exact ih (.inr h)

/-- The parts between the separators are those that are joined by it and hold none. -/
theorem splitOn_eq_iff [DecidableEq α] {sep : α} {cs : List α} {parts : List (List α)}
    (hne : parts ≠ []) :
    cs.splitOn sep = parts ↔ cs = [sep].intercalate parts ∧ ∀ part ∈ parts, sep ∉ part := by
  constructor
  · rintro rfl
    exact ⟨(List.intercalate_splitOn sep).symm, fun _ => not_mem_of_mem_splitOn⟩
  · rintro ⟨rfl, h⟩
    exact List.splitOn_intercalate sep h hne

theorem map_splitOn_intercalate {sep : Char} {s : String} {parts : List String}
    (hs : s.toList = [sep]) (hne : parts ≠ []) (h : ∀ part ∈ parts, sep ∉ part.toList) :
    ((s.intercalate parts).toList.splitOn sep).map String.ofList = parts := by
  have hsep : ∀ cs ∈ parts.map String.toList, sep ∉ cs := by
    intro cs hcs
    obtain ⟨part, hpart, rfl⟩ := List.mem_map.mp hcs
    exact h part hpart
  rw [String.toList_intercalate, hs, List.splitOn_intercalate sep hsep (by simpa using hne),
    List.map_map]
  simp [Function.comp_def]

theorem isPrefixOf?_cons_self [BEq α] [ReflBEq α] (c : α) (mark cs : List α) :
    (c :: mark).isPrefixOf? (c :: cs) = mark.isPrefixOf? cs :=
  if_pos BEq.rfl

theorem isPrefixOf?_cons_ne [BEq α] [LawfulBEq α] {c d : α} (h : c ≠ d) (mark cs : List α) :
    (c :: mark).isPrefixOf? (d :: cs) = none :=
  if_neg fun heq => h (eq_of_beq heq)

theorem isPrefixOf?_append [BEq α] [LawfulBEq α] (mark after : List α) :
    mark.isPrefixOf? (mark ++ after) = some after := by
  induction mark with
  | nil => rfl
  | cons c mark ih => exact (isPrefixOf?_cons_self c mark (mark ++ after)).trans ih

end RestQuery.Text

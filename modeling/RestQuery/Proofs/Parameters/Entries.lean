import Mathlib.Data.List.Induction
import RestQuery.Parameters

/-!
# Entries from pairs

Appending pairs one after the other builds the entries: a new key goes to the
end, a known one collects its values in place. So parameters whose values are
`Collected` are what their pairs give, entry by entry (`ofPairs_spread`).
-/

namespace RestQuery

variable {es rest : List (String × α)} {key : String}

theorem alterEntry_of_not_mem (h : key ∉ es.map Prod.fst) (f : Option α → α) :
    alterEntry key f es = es ++ [(key, f none)] := by
  induction es with
  | nil => rfl
  | cons e es ih =>
    rw [List.map_cons, List.mem_cons, not_or] at h
    rw [alterEntry, if_neg (Ne.symm h.1), ih h.2]
    rfl

theorem alterEntry_append_of_not_mem (h : key ∉ es.map Prod.fst) (f : Option α → α) (a : α) :
    alterEntry key f (es ++ (key, a) :: rest) = es ++ (key, f (some a)) :: rest := by
  induction es with
  | nil => simp [alterEntry]
  | cons e es ih =>
    rw [List.map_cons, List.mem_cons, not_or] at h
    rw [List.cons_append, alterEntry, if_neg (Ne.symm h.1), ih h.2]
    rfl

theorem lookup_filter (test : String → Bool) (key : String) (es : List (String × α)) :
    (es.filter fun e => test e.1).lookup key = if test key then es.lookup key else none := by
  induction es with
  | nil => simp
  | cons e es ih =>
    obtain ⟨first, value⟩ := e
    by_cases hkey : key = first
    · subst hkey
      by_cases htest : test key
      · simp [htest]
      · simp [htest, ih]
    · have hne : (key == first) = false := beq_eq_false_iff_ne.mpr hkey
      by_cases htest : test first
      · simp [htest, List.lookup_cons, hne, ih]
      · simp [htest, List.lookup_cons, hne, ih]

/-- Changing a key changes only what it is among the entries whose keys pass a test. -/
theorem filter_alterEntry (test : String → Bool) (key : String) (f : Option α → α)
    (es : List (String × α)) : (alterEntry key f es).filter (fun e => test e.1) =
      if test key then alterEntry key f (es.filter fun e => test e.1)
      else es.filter fun e => test e.1 := by
  induction es with
  | nil => by_cases htest : test key <;> simp [alterEntry, htest]
  | cons e es ih =>
    by_cases hkey : e.1 = key
    · by_cases htest : test key
      · simp [alterEntry, hkey, htest]
      · simp [alterEntry, hkey, htest]
    · by_cases hfirst : test e.1
      · by_cases htest : test key <;> simp [alterEntry, hkey, hfirst, htest, ih]
      · by_cases htest : test key <;> simp [alterEntry, hkey, hfirst, htest, ih]

namespace Value

def texts : Value → List String
  | .one text => [text]
  | .many texts => texts

theorem last_eq (v : Value) : v.last = v.texts.getLast?.getD "" := by cases v <;> rfl

theorem joined_eq (v : Value) : v.joined = ",".intercalate v.texts := by cases v <;> rfl

/-- A value as a query string gives it: one text, or the list of a key that was
given more than once. -/
def Collected : Value → Prop
  | .one _ => True
  | .many texts => 2 ≤ texts.length

instance (v : Value) : Decidable v.Collected := by cases v <;> unfold Collected <;> infer_instance

theorem foldl_push_many (before texts : List String) :
    texts.foldl push (.many before) = .many (before ++ texts) := by
  induction texts generalizing before with
  | nil => simp
  | cons text texts ih => rw [List.foldl_cons, push, ih, List.append_assoc, List.singleton_append]

theorem foldl_push_texts {v : Value} (h : v.Collected) :
    ∃ text texts, v.texts = text :: texts ∧ texts.foldl push (.one text) = v := by
  cases v with
  | one text => exact ⟨text, [], rfl, rfl⟩
  | many texts =>
    match texts, h with
    | first :: second :: texts, _ =>
      exact ⟨first, second :: texts, rfl, foldl_push_many [first, second] texts⟩

end Value

namespace Parameters

def spread (entry : String × Value) : List (String × String) :=
  entry.2.texts.map fun text => (entry.1, text)

def appendAll (p : Parameters) (pairs : List (String × String)) : Parameters :=
  pairs.foldl (fun p pair => p.append pair.1 pair.2) p

theorem appendAll_append (p : Parameters) (pairs more : List (String × String)) :
    p.appendAll (pairs ++ more) = (p.appendAll pairs).appendAll more :=
  List.foldl_append

theorem entries_ofPairs_filter (test : String → Bool) (pairs : List (String × String)) :
    (ofPairs pairs).entries.filter (fun e => test e.1) =
      (ofPairs (pairs.filter fun pair => test pair.1)).entries := by
  induction pairs using List.reverseRecOn with
  | nil => rfl
  | append_singleton pairs pair ih =>
    have hstep (pairs : List (String × String)) :
        ofPairs (pairs ++ [pair]) = (ofPairs pairs).append pair.1 pair.2 := by
      simp [ofPairs]
    by_cases htest : test pair.1
    · simp [hstep, htest, append, alter, filter_alterEntry, ih]
    · simp [hstep, htest, append, alter, filter_alterEntry, ih]

theorem entries_append_new {p : Parameters} {key : String} (h : key ∉ p.keys) (text : String) :
    (p.append key text).entries = p.entries ++ [(key, .one text)] :=
  alterEntry_of_not_mem h _

theorem entries_append_last {p : Parameters} {es : List (String × Value)} {key : String}
    {v : Value} (h : p.entries = es ++ [(key, v)]) (hkey : key ∉ es.map Prod.fst)
    (text : String) : (p.append key text).entries = es ++ [(key, v.push text)] := by
  change alterEntry key _ p.entries = _
  rw [h]
  exact alterEntry_append_of_not_mem hkey _ v

theorem entries_appendAll_last {p : Parameters} {es : List (String × Value)} {key : String}
    {v : Value} (h : p.entries = es ++ [(key, v)]) (hkey : key ∉ es.map Prod.fst)
    (texts : List String) :
    (p.appendAll (texts.map fun text => (key, text))).entries =
      es ++ [(key, texts.foldl Value.push v)] := by
  induction texts generalizing p v with
  | nil => exact h
  | cons text texts ih => exact ih (entries_append_last h hkey text)

theorem entries_appendAll_spread {p : Parameters} {entry : String × Value}
    (hkey : entry.1 ∉ p.keys) (hvalue : entry.2.Collected) :
    (p.appendAll (spread entry)).entries = p.entries ++ [entry] := by
  obtain ⟨text, texts, htexts, hpush⟩ := Value.foldl_push_texts hvalue
  rw [spread, htexts, List.map_cons]
  have hrest := entries_appendAll_last (entries_append_new hkey text) hkey texts
  rw [hpush] at hrest
  exact hrest

theorem entries_appendAll_flatMap {p : Parameters} {entries : List (String × Value)}
    (hkeys : ((p.entries ++ entries).map Prod.fst).Nodup)
    (hvalues : ∀ entry ∈ entries, entry.2.Collected) :
    (p.appendAll (entries.flatMap spread)).entries = p.entries ++ entries := by
  induction entries generalizing p with
  | nil => simp [appendAll]
  | cons entry entries ih =>
    rw [List.forall_mem_cons] at hvalues
    -- the entry is new, so its pairs stand at the end
    have hkey : entry.1 ∉ p.keys := by
      intro hmem
      rw [List.map_append, List.nodup_append] at hkeys
      exact hkeys.2.2 _ hmem _ List.mem_cons_self rfl
    have hfirst := entries_appendAll_spread hkey hvalues.1
    rw [List.flatMap_cons, appendAll_append, ih (by rw [hfirst]; simpa using hkeys) hvalues.2,
      hfirst, List.append_assoc]
    rfl

theorem ofPairs_spread (p : Parameters) (h : ∀ entry ∈ p.entries, entry.2.Collected) :
    ofPairs (p.entries.flatMap spread) = p :=
  ext (entries_appendAll_flatMap (p := empty) p.nodup h)

end Parameters

end RestQuery

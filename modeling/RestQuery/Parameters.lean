/-!
# Query parameters

Parameters are decoded keys with their values, in the order in which the keys
were first touched; no key stands twice. A key that is given again keeps its
place and collects its values.
-/

namespace RestQuery

/-- One value, or all values of a repeated key. A list stays a list even when
it holds one value or none. -/
inductive Value where
  | one (text : String)
  | many (texts : List String)
  deriving DecidableEq, Repr

namespace Value

def joined : Value → String
  | .one text => text
  | .many texts => ",".intercalate texts

/-- The value that counts where only one can. -/
def last : Value → String
  | .one text => text
  | .many texts => texts.getLast?.getD ""

def push : Value → String → Value
  | .one text, new => .many [text, new]
  | .many texts, new => .many (texts ++ [new])

def display : Value → String
  | .one text => text
  | .many texts => "[" ++ ", ".intercalate texts ++ "]"

end Value

/-- An association list with the value of `key` changed in place, or put at
the end when there is none. -/
def alterEntry (key : String) (f : Option α → α) : List (String × α) → List (String × α)
  | [] => [(key, f none)]
  | e :: es => if e.1 = key then (key, f (some e.2)) :: es else e :: alterEntry key f es

theorem map_fst_alterEntry (key : String) (f : Option α → α) (es : List (String × α)) :
    (alterEntry key f es).map Prod.fst =
      if key ∈ es.map Prod.fst then es.map Prod.fst else es.map Prod.fst ++ [key] := by
  induction es with
  | nil => simp [alterEntry]
  | cons e es ih =>
    by_cases h : e.1 = key
    · simp [alterEntry, h]
    · simp only [alterEntry, h, if_false, List.map_cons, ih, List.mem_cons, Ne.symm h, false_or]
      split <;> simp

theorem nodup_alterEntry {key : String} {f : Option α → α} {es : List (String × α)}
    (h : (es.map Prod.fst).Nodup) : ((alterEntry key f es).map Prod.fst).Nodup := by
  rw [map_fst_alterEntry]
  split
  · exact h
  · rename_i hk
    rw [List.nodup_append]
    refine ⟨h, by simp, ?_⟩
    intro a ha b hb hab
    simp only [List.mem_singleton] at hb
    exact hk (hb ▸ hab ▸ ha)

theorem lookup_alterEntry (key k : String) (f : Option α → α) (es : List (String × α)) :
    (alterEntry key f es).lookup k =
      if k = key then some (f (es.lookup key)) else es.lookup k := by
  induction es with
  | nil =>
    by_cases h : k = key
    · simp [alterEntry, h]
    · simp [alterEntry, h, List.lookup_cons, beq_eq_false_iff_ne.mpr h]
  | cons e es ih =>
    obtain ⟨first, value⟩ := e
    by_cases h : first = key
    · by_cases hk : k = key
      · simp [alterEntry, h, hk]
      · simp [alterEntry, h, hk, List.lookup_cons, beq_eq_false_iff_ne.mpr hk]
    · by_cases hk : k = first
      · simp [alterEntry, hk, h]
      · simp [alterEntry, h, List.lookup_cons, beq_eq_false_iff_ne.mpr hk, ih,
          beq_eq_false_iff_ne.mpr (Ne.symm h)]

structure Parameters where
  entries : List (String × Value)
  nodup : (entries.map Prod.fst).Nodup
  deriving DecidableEq

namespace Parameters

@[ext] theorem ext {p q : Parameters} (h : p.entries = q.entries) : p = q := by
  cases p; cases q; cases h; rfl

def empty : Parameters := ⟨[], .nil⟩

def keys (p : Parameters) : List String := p.entries.map Prod.fst

def get? (p : Parameters) (key : String) : Option Value := p.entries.lookup key

def alter (p : Parameters) (key : String) (f : Option Value → Value) : Parameters :=
  ⟨alterEntry key f p.entries, nodup_alterEntry p.nodup⟩

/-- Adds one value; a key that has one already holds a list from then on. -/
def append (p : Parameters) (key text : String) : Parameters :=
  p.alter key fun
    | none => .one text
    | some old => old.push text

def insert (p : Parameters) (key : String) (value : Value) : Parameters :=
  p.alter key fun _ => value

def ofPairs (pairs : List (String × String)) : Parameters :=
  pairs.foldl (fun p pair => p.append pair.1 pair.2) empty

def only (key : String) (value : Value) : Parameters := ⟨[(key, value)], by simp⟩

theorem keys_alter (p : Parameters) (key : String) (f : Option Value → Value) :
    (p.alter key f).keys = if key ∈ p.keys then p.keys else p.keys ++ [key] :=
  map_fst_alterEntry key f p.entries

theorem get?_alter (p : Parameters) (key k : String) (f : Option Value → Value) :
    (p.alter key f).get? k = if k = key then some (f (p.get? key)) else p.get? k :=
  lookup_alterEntry key k f p.entries

@[simp] theorem get?_only (key : String) (value : Value) :
    (only key value).get? key = some value := by
  simp [only, get?]

end Parameters

end RestQuery

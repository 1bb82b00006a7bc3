import Mathlib.Data.List.Induction
import RestQuery.Parameters.QueryString

/-!
# Histories

Parameters are the outcome of a history of changes. Every key has a history of
its own: its value is what its own changes make of it, one after the other, and
changes of other keys between them do not count (`get?_ofChanges`). Keys stand
in the order in which they were first changed (`keys_ofChanges`). A history that
only appends, as reading a query string does, collects the texts of each key.
-/

namespace RestQuery

inductive Change where
  | append (key text : String)
  | insert (key : String) (value : Value)
  deriving DecidableEq, Repr

namespace Change

def key : Change → String
  | .append key _ => key
  | .insert key _ => key

def value : Change → Option Value → Value
  | .append _ text, none => .one text
  | .append _ text, some (.one old) => .many [old, text]
  | .append _ text, some (.many texts) => .many (texts ++ [text])
  | .insert _ new, _ => new

def replay (changes : List Change) : Option Value :=
  changes.foldl (fun old c => some (c.value old)) none

theorem replay_concat (changes : List Change) (c : Change) :
    replay (changes ++ [c]) = some (c.value (replay changes)) := by
  rw [replay, List.foldl_append]
  rfl

theorem replay_eq_none {changes : List Change} : replay changes = none ↔ changes = [] := by
  rcases List.eq_nil_or_concat changes with rfl | ⟨before, c, rfl⟩
  · exact iff_of_true rfl rfl
  · simp [List.concat_eq_append, replay_concat]

end Change

/-- What texts for one key make of it: one text stands by itself, more are a list. -/
def Value.collect? : List String → Option Value
  | [] => none
  | [text] => some (.one text)
  | texts => some (.many texts)

theorem Value.collect?_concat (key text : String) (texts : List String) :
    collect? (texts ++ [text]) = some ((Change.append key text).value (collect? texts)) := by
  match texts with
  | [] => rfl
  | [_] => rfl
  | _ :: _ :: _ => rfl

theorem Change.replay_append (key : String) (texts : List String) :
    replay (texts.map (append key)) = Value.collect? texts := by
  induction texts using List.reverseRecOn with
  | nil => rfl
  | append_singleton texts text ih =>
    rw [List.map_append, List.map_singleton, replay_concat, ih, ← Value.collect?_concat]

namespace Parameters

def change (p : Parameters) : Change → Parameters
  | .append key text => p.append key text
  | .insert key value => p.insert key value

def ofChanges (changes : List Change) : Parameters := changes.foldl change empty

def queryPairs (query : String) : List (String × String) :=
  (rawPairs (dropQuestionMark query.toList)).map decodePair

def textsOf (key : String) (pairs : List (String × String)) : List String :=
  (pairs.filter (·.1 = key)).map Prod.snd

-- ---------------------------------------------------------------------------
-- One change
-- ---------------------------------------------------------------------------

theorem change_eq_alter (p : Parameters) (c : Change) : p.change c = p.alter c.key c.value := by
  cases c with
  | append key text =>
    refine congrArg (p.alter key) (funext fun old => ?_)
    match old with
    | none => rfl
    | some (.one _) => rfl
    | some (.many _) => rfl
  | insert key value => rfl

theorem get?_change (p : Parameters) (c : Change) (key : String) :
    (p.change c).get? key = if key = c.key then some (c.value (p.get? key)) else p.get? key := by
  rw [change_eq_alter, get?_alter]
  split
  next h => rw [h]
  next => rfl

theorem keys_change (p : Parameters) (c : Change) :
    (p.change c).keys = if c.key ∈ p.keys then p.keys else p.keys ++ [c.key] := by
  rw [change_eq_alter, keys_alter]

-- ---------------------------------------------------------------------------
-- All changes
-- ---------------------------------------------------------------------------

theorem ofChanges_concat (changes : List Change) (c : Change) :
    ofChanges (changes ++ [c]) = (ofChanges changes).change c := by
  rw [ofChanges, List.foldl_append]
  rfl

theorem eraseDups_concat (keys : List String) (key : String) :
    (keys ++ [key]).eraseDups =
      if key ∈ keys then keys.eraseDups else keys.eraseDups ++ [key] := by
  rw [List.eraseDups_append, List.removeAll]
  split
  next h => simp [h]
  next h => simp [h, List.eraseDups_cons]

theorem keys_ofChanges (changes : List Change) :
    (ofChanges changes).keys = (changes.map Change.key).eraseDups := by
  induction changes using List.reverseRecOn with
  | nil => rfl
  | append_singleton changes c ih =>
    rw [ofChanges_concat, keys_change, ih, List.map_append, List.map_singleton, eraseDups_concat]
    simp only [List.mem_eraseDups]

theorem get?_ofChanges (changes : List Change) (key : String) :
    (ofChanges changes).get? key = Change.replay (changes.filter (·.key = key)) := by
  induction changes using List.reverseRecOn with
  | nil => rfl
  | append_singleton changes c ih =>
    rw [ofChanges_concat, get?_change, ih, List.filter_append]
    by_cases h : c.key = key
    · simp [h, Change.replay_concat]
    · simp [h, Ne.symm h]

theorem ofChanges_append (pairs : List (String × String)) :
    ofChanges (pairs.map fun pair => .append pair.1 pair.2) = ofPairs pairs := by
  rw [ofChanges, List.foldl_map]
  rfl

theorem get?_ofPairs (pairs : List (String × String)) (key : String) :
    (ofPairs pairs).get? key = Value.collect? (textsOf key pairs) := by
  have hown : (pairs.map fun pair => Change.append pair.1 pair.2).filter (·.key = key) =
      (textsOf key pairs).map (Change.append key) := by
    induction pairs with
    | nil => rfl
    | cons pair pairs ih =>
      rw [List.map_cons, List.filter_cons, ih, textsOf, textsOf, List.filter_cons]
      by_cases h : pair.1 = key
      · simp [Change.key, h]
      · simp [Change.key, h]
  rw [← ofChanges_append, get?_ofChanges, hown, Change.replay_append]

/-- Each key has the value that its own changes lead to, in whatever order the keys are changed. It
has none until it is changed, and keys stand in the order of their first changes. Where texts are
only appended, one text stays by itself, and more are listed in their order. -/
theorem histories (changes : List Change) (pairs : List (String × String)) (query key : String) :
    (ofChanges changes).keys.Nodup ∧
    (ofChanges changes).keys = (changes.map Change.key).eraseDups ∧
    (ofChanges changes).get? key = Change.replay (changes.filter (·.key = key)) ∧
    ((ofChanges changes).get? key = none ↔ key ∉ changes.map Change.key) ∧
    (∀ c, (ofChanges (changes ++ [c])).get? key =
      if key = c.key then some (c.value ((ofChanges changes).get? key))
      else (ofChanges changes).get? key) ∧
    ofChanges (pairs.map fun pair => .append pair.1 pair.2) = ofPairs pairs ∧
    (ofPairs pairs).get? key = Value.collect? (textsOf key pairs) ∧
    (ofQueryString query).get? key = Value.collect? (textsOf key (queryPairs query)) := by
  refine ⟨(ofChanges changes).nodup, keys_ofChanges changes, get?_ofChanges changes key, ?_, ?_,
    ofChanges_append pairs, get?_ofPairs pairs key, get?_ofPairs (queryPairs query) key⟩
  · rw [get?_ofChanges, Change.replay_eq_none, List.filter_eq_nil_iff]
    simp
  · intro c
    rw [ofChanges_concat, get?_change]

example : (ofChanges [.append "tag" "a", .insert "page" (.many []), .append "tag" "b",
    .append "page" "2", .insert "tag" (.one "c"), .append "tag" "d"]).entries =
    [("tag", .many ["c", "d"]), ("page", .many ["2"])] := by decide

end Parameters

end RestQuery

import RestQuery.Parameters.QueryString
import RestQuery.Proofs.Text.Encoding

/-!
# Query strings for given pairs

`EncodesQuery pairs query` says that `query` is one of the ways to write the
pairs: keys and values encoded character by character, `=` inside each pair,
`&` between pairs, and further `&` anywhere. Whatever the choices, reading the
query string appends the pairs in order (`ofQueryString_encodesQuery`).
`encodeQuery` writes one of them.
-/

namespace RestQuery

open Text (Encodes)

def keyMarks : List Char := ['%', '+', '&', '=']

def valueMarks : List Char := ['%', '+', '&']

inductive EncodesPair : String × String → List Char → Prop
  | mk {key value : String} {rawKey rawValue : List Char} :
      Encodes keyMarks key.toList rawKey → Encodes valueMarks value.toList rawValue →
      EncodesPair (key, value) (rawKey ++ '=' :: rawValue)

/-- The raw pairs of a query string, with empty ones anywhere among them. -/
inductive EncodesPairs : List (String × String) → List (List Char) → Prop
  | nil : EncodesPairs [] []
  | empty {pairs : List (String × String)} {raws : List (List Char)} :
      EncodesPairs pairs raws → EncodesPairs pairs ([] :: raws)
  | cons {pair : String × String} {raw : List Char} {pairs : List (String × String)}
      {raws : List (List Char)} :
      EncodesPair pair raw → EncodesPairs pairs raws → EncodesPairs (pair :: pairs) (raw :: raws)

def EncodesQuery (pairs : List (String × String)) (query : String) : Prop :=
  ∃ raws, EncodesPairs pairs raws ∧ query.toList = '?' :: ['&'].intercalate raws

-- ---------------------------------------------------------------------------
-- Pairs
-- ---------------------------------------------------------------------------

theorem decodePair_of_encodes {pair : String × String} {raw : List Char}
    (h : EncodesPair pair raw) : decodePair raw = pair := by
  cases h with
  | @mk key value rawKey rawValue hkey hvalue =>
    -- the key holds no `=`, so the first one ends it
    have hcut : Text.cut? '=' (rawKey ++ '=' :: rawValue) = some (rawKey, rawValue) :=
      Text.cut?_append (Text.encodes_not_mem (.inr rfl) (by decide) hkey)
    rw [decodePair, Text.cut, hcut, Option.getD_some]
    simp only [Text.decodeComponent_encodes (by decide) (by decide) hkey,
      Text.decodeComponent_encodes (by decide) (by decide) hvalue, String.ofList_toList]

theorem encodesPair_ne_nil {pair : String × String} {raw : List Char} (h : EncodesPair pair raw) :
    raw ≠ [] := by
  cases h
  simp

theorem encodesPair_not_mem {pair : String × String} {raw : List Char} (h : EncodesPair pair raw) :
    '&' ∉ raw := by
  cases h with
  | mk hkey hvalue =>
    have hkey := Text.encodes_not_mem (.inl rfl) (by decide) hkey
    have hvalue := Text.encodes_not_mem (.inl rfl) (by decide) hvalue
    simp [hkey, hvalue]

section
variable {pairs : List (String × String)} {raws : List (List Char)}

theorem encodesPairs_not_mem (h : EncodesPairs pairs raws) : ∀ raw ∈ raws, '&' ∉ raw := by
  induction h with
  | nil => simp
  | empty _ ih => exact List.forall_mem_cons.mpr ⟨by simp, ih⟩
  | cons hpair _ ih => exact List.forall_mem_cons.mpr ⟨encodesPair_not_mem hpair, ih⟩

theorem map_decodePair_of_encodes (h : EncodesPairs pairs raws) :
    (raws.filter (· ≠ [])).map decodePair = pairs := by
  induction h with
  | nil => rfl
  | empty _ ih => simpa using ih
  | cons hpair _ ih =>
    rw [List.filter_cons_of_pos (by simpa using encodesPair_ne_nil hpair), List.map_cons,
      decodePair_of_encodes hpair, ih]

theorem rawPairs_intercalate (h : ∀ raw ∈ raws, '&' ∉ raw) :
    rawPairs (['&'].intercalate raws) = raws.filter (· ≠ []) := by
  unfold rawPairs
  by_cases hraws : raws = []
  · simp [hraws]
  · rw [List.splitOn_intercalate '&' h hraws]

theorem decodedPairs_of_encodes {query : String} (h : EncodesQuery pairs query) :
    (rawPairs (dropQuestionMark query.toList)).map decodePair = pairs := by
  obtain ⟨raws, hraws, hquery⟩ := h
  rw [hquery, dropQuestionMark, rawPairs_intercalate (encodesPairs_not_mem hraws),
    map_decodePair_of_encodes hraws]

end

-- ---------------------------------------------------------------------------
-- One encoding
-- ---------------------------------------------------------------------------

def encodePair (pair : String × String) : List Char :=
  Text.encode keyMarks pair.1.toList ++ '=' :: Text.encode valueMarks pair.2.toList

def encodeQuery (pairs : List (String × String)) : String :=
  .ofList ('?' :: ['&'].intercalate (pairs.map encodePair))

theorem encodesQuery_encodeQuery (pairs : List (String × String)) :
    EncodesQuery pairs (encodeQuery pairs) := by
  refine ⟨pairs.map encodePair, ?_, String.toList_ofList⟩
  induction pairs with
  | nil => exact .nil
  | cons pair pairs ih =>
    exact .cons (.mk (Text.encodes_encode _ _) (Text.encodes_encode _ _)) ih

-- ---------------------------------------------------------------------------
-- Reading
-- ---------------------------------------------------------------------------

/-- Reading a query string appends its pairs one after the other, however they
are encoded. -/
theorem ofQueryString_encodesQuery {pairs : List (String × String)} {query : String}
    (h : EncodesQuery pairs query) :
    Parameters.ofQueryString query =
      pairs.foldl (fun p pair => p.append pair.1 pair.2) .empty := by
  rw [Parameters.ofQueryString, decodedPairs_of_encodes h]
  rfl

/-- Escapes of either case, a space as `+`, an escaped letter of a repeated key,
an empty key, and empty pairs. -/
theorem ofQueryString_encodesQuery_mixed :
    EncodesQuery [("tag", "é &"), ("", "a=b"), ("tag", "")] "?&tag=%c3%A9+%26&&=a=b&t%61g=&" ∧
      Parameters.ofQueryString "?&tag=%c3%A9+%26&&=a=b&t%61g=&" =
        ((Parameters.empty.append "tag" "é &").append "" "a=b").append "tag" "" := by
  have eAcute : Text.Escapes (Text.utf8 ['é']) "%c3%A9".toList :=
    .cons (b := 0xC3) (by decide) (by decide) (.cons (b := 0xA9) (by decide) (by decide) .nil)
  have ampersand : Text.Escapes (Text.utf8 ['&']) "%26".toList :=
    .cons (b := 0x26) (by decide) (by decide) .nil
  have letterA : Text.Escapes (Text.utf8 ['a']) "%61".toList :=
    .cons (b := 0x61) (by decide) (by decide) .nil
  have first : EncodesPair ("tag", "é &") ("tag".toList ++ '=' :: "%c3%A9+%26".toList) := by
    constructor
    · exact .cons (.itself (by decide))
        (.cons (.itself (by decide)) (.cons (.itself (by decide)) .nil))
    · exact .cons (.escaped eAcute) (.cons .plus (.cons (.escaped ampersand) .nil))
  have second : EncodesPair ("", "a=b") ([] ++ '=' :: "a=b".toList) := by
    constructor
    · exact .nil
    · exact .cons (.itself (by decide))
        (.cons (.itself (by decide)) (.cons (.itself (by decide)) .nil))
  have third : EncodesPair ("tag", "") ("t%61g".toList ++ '=' :: []) := by
    constructor
    · exact .cons (.itself (by decide))
        (.cons (.escaped letterA) (.cons (.itself (by decide)) .nil))
    · exact .nil
  have h : EncodesQuery [("tag", "é &"), ("", "a=b"), ("tag", "")]
      "?&tag=%c3%A9+%26&&=a=b&t%61g=&" :=
    ⟨_, .empty (.cons first (.empty (.cons second (.cons third (.empty .nil))))), rfl⟩
  exact ⟨h, ofQueryString_encodesQuery h⟩

end RestQuery

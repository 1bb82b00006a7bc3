import RestQuery.Proofs.Parameters.Encoding
import RestQuery.Proofs.Parameters.Entries
import RestQuery.Proofs.Parameters.Histories
import RestQuery.Proofs.Query.Dependence
import RestQuery.Proofs.Text.Joints

/-!
# Repeated keys collapse

A query string may give a reserved key more than once. For a list key that is
the same as giving it once, with the values as they are written and commas
between them; for a window key it is the same as giving it the last time alone
(`read_collapsed`). What is read from pairs depends only on the joined texts of
the list keys, the last texts of the window keys and the other pairs
(`read_ofPairs_eq`); the rest is that a comma keeps escapes and characters
apart, however the values around it are cut off.
-/

namespace RestQuery

def IsRawPair (raw : String) : Prop := raw ≠ "" ∧ '&' ∉ raw.toList

instance (raw : String) : Decidable (IsRawPair raw) := by unfold IsRawPair; infer_instance

def pairKey (raw : String) : String := (decodePair raw.toList).1

def rawValue (raw : String) : String := .ofList (Text.cut '=' raw.toList).2

def rawQuery (raws : List String) : String := "?" ++ "&".intercalate raws

def decodedPairs (raws : List String) : List (String × String) :=
  raws.map fun raw => decodePair raw.toList

/-- One raw pair for all those of a key, with commas between their values. -/
def mergedPair (key : String) (raws : List String) : String :=
  key ++ "=" ++ ",".intercalate ((raws.filter (pairKey · = key)).map rawValue)

-- ---------------------------------------------------------------------------
-- Reading pairs
-- ---------------------------------------------------------------------------

namespace Parameters

variable {key : String} {pairs pairs' : List (String × String)}

theorem exists_get?_ofPairs (h : textsOf key pairs ≠ []) :
    ∃ v, (ofPairs pairs).get? key = some v ∧ v.texts = textsOf key pairs := by
  rw [get?_ofPairs]
  match textsOf key pairs, h with
  | [text], _ => exact ⟨.one text, rfl, rfl⟩
  | first :: second :: texts, _ => exact ⟨.many (first :: second :: texts), rfl, rfl⟩

theorem items_ofPairs (key : String) (pairs : List (String × String)) :
    (ofPairs pairs).items key =
      if ",".intercalate (textsOf key pairs) = "" then []
      else ((",".intercalate (textsOf key pairs)).toList.splitOn ',').map .ofList := by
  by_cases h : textsOf key pairs = []
  · simp [items, get?_ofPairs, h, Value.collect?]
  · obtain ⟨v, hv, htexts⟩ := exists_get?_ofPairs h
    simp only [items, hv, v.joined_eq, htexts]

theorem count?_ofPairs (key : String) (pairs : List (String × String)) :
    (ofPairs pairs).count? key = (textsOf key pairs).getLast?.bind Text.count? := by
  by_cases h : textsOf key pairs = []
  · simp [count?, get?_ofPairs, h, Value.collect?]
  · obtain ⟨v, hv, htexts⟩ := exists_get?_ofPairs h
    simp [count?, hv, v.last_eq, htexts, List.getLast?_eq_some_getLast h]

theorem textsOf_eq_of_others {other : String} (hne : other ≠ key)
    (h : pairs.filter (·.1 ≠ key) = pairs'.filter (·.1 ≠ key)) :
    textsOf other pairs = textsOf other pairs' := by
  have hothers (pairs : List (String × String)) :
      textsOf other pairs = textsOf other (pairs.filter (·.1 ≠ key)) := by
    simp only [textsOf, List.filter_filter]
    congr 1
    refine List.filter_congr fun pair _ => ?_
    by_cases hpair : pair.1 = other
    · simp [hpair, hne]
    · simp [hpair]
  rw [hothers pairs, hothers pairs', h]

theorem filterEntries_ofPairs (hkey : key ∈ reservedKeys)
    (h : pairs.filter (·.1 ≠ key) = pairs'.filter (·.1 ≠ key)) :
    Query.filterEntries (ofPairs pairs) = Query.filterEntries (ofPairs pairs') := by
  have hothers (pairs : List (String × String)) : pairs.filter (·.1 ∉ reservedKeys) =
      (pairs.filter (·.1 ≠ key)).filter (·.1 ∉ reservedKeys) := by
    rw [List.filter_filter]
    refine List.filter_congr fun pair _ => ?_
    by_cases hpair : pair.1 = key
    · simp [hpair, hkey]
    · simp [hpair]
  rw [Query.filterEntries, Query.filterEntries, entries_ofPairs_filter (· ∉ reservedKeys),
    entries_ofPairs_filter (· ∉ reservedKeys), hothers pairs, hothers pairs', h]

end Parameters

namespace Query

open Parameters (ofPairs textsOf)

section
variable {key : String} {pairs pairs' : List (String × String)}
  (hothers : pairs.filter (·.1 ≠ key) = pairs'.filter (·.1 ≠ key))
include hothers

/-- A list key counts by its texts joined, a window key by its last one. -/
theorem read_ofPairs_eq (e : Edge) (d : UInt64) (hkey : key ∈ reservedKeys)
    (hjoin : key ∈ listKeys →
      ",".intercalate (textsOf key pairs) = ",".intercalate (textsOf key pairs'))
    (hlast : key ∈ windowKeys → (textsOf key pairs).getLast? = (textsOf key pairs').getLast?) :
    read e d (ofPairs pairs) = read e d (ofPairs pairs') := by
  refine read_eq ?_ (Parameters.filterEntries_ofPairs hkey hothers) ?_
  · intro other hother
    rw [Parameters.items_ofPairs, Parameters.items_ofPairs]
    by_cases hne : other = key
    · subst hne
      rw [hjoin hother]
    · rw [Parameters.textsOf_eq_of_others hne hothers]
  · intro other hother
    rw [Parameters.count?_ofPairs, Parameters.count?_ofPairs]
    by_cases hne : other = key
    · subst hne
      rw [hlast hother]
    · rw [Parameters.textsOf_eq_of_others hne hothers]

end

end Query

-- ---------------------------------------------------------------------------
-- Raw pairs
-- ---------------------------------------------------------------------------

theorem ofQueryString_rawQuery {raws : List String} (h : ∀ raw ∈ raws, IsRawPair raw) :
    Parameters.ofQueryString (rawQuery raws) = .ofPairs (decodedPairs raws) := by
  have hmark : ∀ raw ∈ raws.map String.toList, '&' ∉ raw := by
    intro raw hraw
    obtain ⟨text, htext, rfl⟩ := List.mem_map.mp hraw
    exact (h text htext).2
  have hall : (raws.map String.toList).filter (· ≠ []) = raws.map String.toList := by
    rw [List.filter_eq_self]
    intro raw hraw
    obtain ⟨text, htext, rfl⟩ := List.mem_map.mp hraw
    simpa using (h text htext).1
  have hquery : (rawQuery raws).toList = '?' :: ['&'].intercalate (raws.map String.toList) := by
    simp [rawQuery]
  rw [Parameters.ofQueryString, hquery, dropQuestionMark, rawPairs_intercalate hmark, hall,
    List.map_map]
  rfl

theorem mem_of_mem_rawValue {raw : String} {c : Char} (h : c ∈ (rawValue raw).toList) :
    c ∈ raw.toList := by
  rw [rawValue, String.toList_ofList, Text.cut] at h
  cases hcut : Text.cut? '=' raw.toList with
  | none => simp [hcut] at h
  | some parts =>
    obtain ⟨before, after⟩ := parts
    rw [(Text.cut?_eq_some.mp hcut).1]
    simp only [hcut, Option.getD_some] at h
    simp [h]

theorem snd_decodePair (raw : String) :
    (decodePair raw.toList).2 = .ofList (Text.decodeComponent (rawValue raw).toList) := by
  simp [decodePair, rawValue]

section
variable {key : String} {raws : List String}

theorem textsOf_decoded (key : String) (raws : List String) :
    Parameters.textsOf key (decodedPairs raws) =
      (raws.filter (pairKey · = key)).map fun raw => (decodePair raw.toList).2 := by
  unfold Parameters.textsOf decodedPairs pairKey
  simp only [List.filter_map, List.map_map, Function.comp_def]

theorem others_decoded (key : String) (raws : List String) :
    (decodedPairs raws).filter (·.1 ≠ key) = decodedPairs (raws.filter (pairKey · ≠ key)) := by
  unfold decodedPairs pairKey
  simp only [List.filter_map, Function.comp_def]

theorem toList_mergedPair (key : String) (raws : List String) :
    (mergedPair key raws).toList = key.toList ++ '=' ::
      [','].intercalate ((raws.filter (pairKey · = key)).map fun raw => (rawValue raw).toList) := by
  simp [mergedPair, Function.comp_def]

theorem mem_intercalate {sep c : Char} {values : List (List Char)}
    (h : c ∈ [sep].intercalate values) : c = sep ∨ ∃ value ∈ values, c ∈ value := by
  induction values with
  | nil => simp at h
  | cons value values ih =>
    cases values with
    | nil => exact .inr ⟨value, List.mem_cons_self, by simpa using h⟩
    | cons next values =>
      simp only [List.intercalate_cons_cons, List.mem_append, List.mem_singleton] at h
      rcases h with (h | rfl) | h
      · exact .inr ⟨value, List.mem_cons_self, h⟩
      · exact .inl rfl
      · exact (ih h).imp_right fun ⟨value, hvalue, hc⟩ => ⟨value, List.mem_cons_of_mem _ hvalue, hc⟩

theorem isRawPair_mergedPair (hkey : key ∈ listKeys) (h : ∀ raw ∈ raws, IsRawPair raw) :
    IsRawPair (mergedPair key raws) := by
  have hmark : ∀ key ∈ listKeys, '&' ∉ key.toList := by decide
  refine ⟨?_, ?_⟩
  · intro hempty
    simpa [toList_mergedPair] using congrArg String.toList hempty
  · rw [toList_mergedPair]
    simp only [List.mem_append, List.mem_cons, not_or]
    refine ⟨hmark key hkey, by decide, ?_⟩
    intro hvalues
    rcases mem_intercalate hvalues with hcomma | ⟨value, hvalue, hmem⟩
    · exact absurd hcomma (by decide)
    · obtain ⟨raw, hraw, rfl⟩ := List.mem_map.mp hvalue
      exact (h raw (List.mem_of_mem_filter hraw)).2 (mem_of_mem_rawValue hmem)

/-- A merged pair gives its key one text: the texts of the key joined. -/
theorem decodePair_mergedPair (hkey : key ∈ listKeys) (raws : List String) :
    decodePair (mergedPair key raws).toList =
      (key, ",".intercalate (Parameters.textsOf key (decodedPairs raws))) := by
  have hplain : ∀ key ∈ listKeys, '=' ∉ key.toList ∧
      Text.decodeComponent key.toList = key.toList := by decide
  obtain ⟨hequals, hdecode⟩ := hplain key hkey
  rw [toList_mergedPair, decodePair, Text.cut, Text.cut?_append hequals, Option.getD_some]
  simp only [hdecode, String.ofList_toList, Prod.mk.injEq, true_and, textsOf_decoded,
    Text.decodeComponent_intercalate]
  apply String.toList_inj.mp
  simp [snd_decodePair, Function.comp_def]

end

namespace Query

variable {key : String} {raws raws' : List String}

/-- Queries that differ in the pairs of one key are read alike if these come to the same. -/
theorem read_rawQuery_eq (e : Edge) (d : UInt64) (hkey : key ∈ reservedKeys)
    (h : ∀ raw ∈ raws, IsRawPair raw) (h' : ∀ raw ∈ raws', IsRawPair raw)
    (hothers : raws.filter (pairKey · ≠ key) = raws'.filter (pairKey · ≠ key))
    (hjoin : key ∈ listKeys → ",".intercalate (Parameters.textsOf key (decodedPairs raws)) =
      ",".intercalate (Parameters.textsOf key (decodedPairs raws')))
    (hlast : key ∈ windowKeys →
      (raws.filter (pairKey · = key)).getLast? = (raws'.filter (pairKey · = key)).getLast?) :
    read e d (.ofQueryString (rawQuery raws)) = read e d (.ofQueryString (rawQuery raws')) := by
  rw [ofQueryString_rawQuery h, ofQueryString_rawQuery h']
  refine read_ofPairs_eq ?_ e d hkey hjoin ?_
  · rw [others_decoded, others_decoded, hothers]
  · intro hwindow
    rw [textsOf_decoded, textsOf_decoded, List.getLast?_map, List.getLast?_map, hlast hwindow]

section
variable (e : Edge) (d : UInt64) (h : ∀ raw ∈ raws, IsRawPair raw) {before after : List String}
include h

theorem read_merged (hkey : key ∈ listKeys) {first : String}
    (hraws : raws = before ++ first :: after) (hbefore : ∀ raw ∈ before, pairKey raw ≠ key)
    (hfirst : pairKey first = key) :
    read e d (.ofQueryString (rawQuery
      (before ++ mergedPair key raws :: after.filter (pairKey · ≠ key)))) =
      read e d (.ofQueryString (rawQuery raws)) := by
  obtain ⟨hreserved, hwindow⟩ := listKeys_apart key hkey
  have hmerged : pairKey (mergedPair key raws) = key := by
    rw [pairKey, decodePair_mergedPair hkey]
  refine read_rawQuery_eq e d hreserved ?_ h ?_ (fun _ => ?_) fun hw => absurd hw hwindow
  · intro raw hraw
    rw [List.mem_append, List.mem_cons, List.mem_filter] at hraw
    rcases hraw with hraw | rfl | ⟨hraw, -⟩
    · exact h raw (by simp [hraws, hraw])
    · exact isRawPair_mergedPair hkey h
    · exact h raw (by simp [hraws, hraw])
  · rw [hraws] at hmerged ⊢
    simp [hmerged, hfirst]
  · -- the merged pair alone has the key
    have hnone : before.filter (pairKey · = key) = [] := by simpa using hbefore
    rw [textsOf_decoded, List.filter_append, hnone, List.nil_append,
      List.filter_cons_of_pos (by simpa using hmerged)]
    simp [decodePair_mergedPair hkey]

theorem read_last (hkey : key ∈ windowKeys) {last : String}
    (hraws : raws = before ++ last :: after) (hlast : pairKey last = key)
    (hafter : ∀ raw ∈ after, pairKey raw ≠ key) :
    read e d (.ofQueryString (rawQuery (before.filter (pairKey · ≠ key) ++ last :: after))) =
      read e d (.ofQueryString (rawQuery raws)) := by
  obtain ⟨hreserved, hlist⟩ := windowKeys_apart key hkey
  refine read_rawQuery_eq e d hreserved ?_ h ?_ (fun hl => absurd hl hlist) fun _ => ?_
  · intro raw hraw
    rw [List.mem_append, List.mem_filter] at hraw
    rcases hraw with ⟨hraw, -⟩ | hraw
    · exact h raw (by simp [hraws, hraw])
    · exact h raw (by simp [hraws, hraw])
  · simp [hraws]
  · -- on both sides the last pair of the key is the same
    have hnone : after.filter (pairKey · = key) = [] := by simpa using hafter
    simp [hraws, List.filter_append, hlast, hnone]

end

/-- Pairs of one list key are as good as one pair with their values, undecoded, between commas in
the place of the first of them; and of the pairs of one window key only the last counts. -/
theorem read_collapsed (e : Edge) (d : UInt64) (raws : List String)
    (h : ∀ raw ∈ raws, IsRawPair raw) :
    (∀ key ∈ listKeys, ∀ before first after, raws = before ++ first :: after →
      (∀ raw ∈ before, pairKey raw ≠ key) → pairKey first = key →
      read e d (.ofQueryString (rawQuery
        (before ++ mergedPair key raws :: after.filter (pairKey · ≠ key)))) =
        read e d (.ofQueryString (rawQuery raws))) ∧
    ∀ key ∈ windowKeys, ∀ before last after, raws = before ++ last :: after →
      pairKey last = key → (∀ raw ∈ after, pairKey raw ≠ key) →
      read e d (.ofQueryString (rawQuery (before.filter (pairKey · ≠ key) ++ last :: after))) =
        read e d (.ofQueryString (rawQuery raws)) := by
  constructor
  · intro key hkey before first after hraws hbefore hfirst
    exact read_merged e d h hkey hraws hbefore hfirst
  · intro key hkey before last after hraws hlast hafter
    exact read_last e d h hkey hraws hlast hafter

/-- Values that end within a character and within an escape, a pair without a
value, and a key with an escape. -/
def cutPairs : List String :=
  ["fields=%E2%82", "id=1", "limit=x", "f%69elds=%4", "limit=3", "fields", "limit=+7"]

def cutEdge : Edge where
  name := "cuts"
  fields := ["id", "", "%4", "\uFFFD"]

theorem read_collapsed_cut :
    (∀ raw ∈ cutPairs, IsRawPair raw) ∧
    read cutEdge 0 (.ofQueryString "?fields=%E2%82,%4,&id=1&limit=x&limit=3&limit=+7") =
      read cutEdge 0 (.ofQueryString (rawQuery cutPairs)) ∧
    read cutEdge 0 (.ofQueryString "?fields=%E2%82&id=1&f%69elds=%4&fields&limit=+7") =
      read cutEdge 0 (.ofQueryString (rawQuery cutPairs)) ∧
    (read cutEdge 0 (.ofQueryString (rawQuery cutPairs))).map Query.fields =
      .ok ["\uFFFD", "%4", ""] := by
  have h : ∀ raw ∈ cutPairs, IsRawPair raw := by decide
  obtain ⟨hlist, hwindow⟩ := read_collapsed cutEdge 0 cutPairs h
  have hmerged : "?fields=%E2%82,%4,&id=1&limit=x&limit=3&limit=+7" = rawQuery ([] ++
      mergedPair "fields" cutPairs :: cutPairs.tail.filter (pairKey · ≠ "fields")) := by
    decide +kernel
  have hlast : "?fields=%E2%82&id=1&f%69elds=%4&fields&limit=+7" = rawQuery
      (cutPairs.dropLast.filter (pairKey · ≠ "limit") ++ ["limit=+7"]) := by
    decide +kernel
  rw [hmerged, hlast]
  refine ⟨h, ?_, ?_, by decide +kernel⟩
  · exact hlist "fields" (by decide) [] _ _ rfl (by decide) (by decide +kernel)
  · exact hwindow "limit" (by decide) _ _ _ rfl (by decide +kernel) (by decide)

end Query

end RestQuery

import RestQuery.Proofs.Outcome
import RestQuery.Request.Router

/-!
# What the parts of a path say

One law for each step of finding the edge of a path: when a path asks for a
version (`versioned?_eq_some`), what is left of a path without one
(`unversioned_spec`), and which resources lead to an edge and an id
(`Api.locate_ok`). The laws on slashes say what one more at the end changes.
-/

namespace RestQuery

open Text (trimEnd)

/-- A text that stands between two slashes of a path. -/
def IsSegment (s : String) : Prop := s ≠ "" ∧ '/' ∉ s.toList

instance (s : String) : Decidable (IsSegment s) := by unfold IsSegment; infer_instance

def resourcePath (edge : String) : Option String → String
  | none => edge
  | some id => edge ++ "/" ++ id

-- ---------------------------------------------------------------------------
-- The front of a path
-- ---------------------------------------------------------------------------

theorem versioned?_eq_some {path version rest : List Char} :
    versioned? path = some (version, rest) ↔
      path = '/' :: 'v' :: (version ++ '/' :: rest) ∧ version ≠ [] ∧ '/' ∉ version := by
  constructor
  · intro h
    unfold versioned? at h
    split at h
    · rename_i cs
      split at h
      · rename_i version' rest' hcut
        split at h
        · cases h
        · rename_i hne
          obtain ⟨rfl, rfl⟩ := Prod.mk.inj (Option.some.inj h)
          obtain ⟨hcs, hslash⟩ := Text.cut?_eq_some.mp hcut
          rw [hcs]
          exact ⟨rfl, hne, fun hmem => hslash (List.mem_cons_of_mem _ hmem)⟩
      · cases h
    · cases h
  · rintro ⟨rfl, hne, hslash⟩
    have hcut : Text.cut? '/' ('v' :: (version ++ '/' :: rest)) = some ('v' :: version, rest) :=
      Text.cut?_eq_some.mpr ⟨rfl, by simp [hslash]⟩
    simp [versioned?, hcut, hne]

theorem unversioned_spec (path : List Char) :
    ∃ before ∈ ["/api/", "/", ""], path = before.toList ++ unversioned path := by
  unfold unversioned
  split
  · rename_i rest h
    refine ⟨"/api/", by simp, ?_⟩
    exact (List.isPrefixOf?_eq_some_iff_append_eq.mp h).symm
  · split
    · exact ⟨"/", by simp, rfl⟩
    · exact ⟨"", by simp, rfl⟩

theorem versioned?_api (rest : List Char) : versioned? ("/api/".toList ++ rest) = none := rfl

theorem unversioned_api (rest : List Char) : unversioned ("/api/".toList ++ rest) = rest := by
  unfold unversioned
  rw [Text.isPrefixOf?_append]

theorem unversioned_of_ne {c : Char} {rest : List Char} (h : c ≠ 'a') :
    unversioned ('/' :: c :: rest) = c :: rest := by
  have hfront : "/api/".toList.isPrefixOf? ('/' :: c :: rest) = none :=
    (Text.isPrefixOf?_cons_self '/' ['a', 'p', 'i', '/'] (c :: rest)).trans
      (Text.isPrefixOf?_cons_ne h.symm ['p', 'i', '/'] rest)
  unfold unversioned
  rw [hfront]
  rfl

-- ---------------------------------------------------------------------------
-- Resources
-- ---------------------------------------------------------------------------

theorem Api.locate_edge_ok {a : Api} {missing : Error} {name : List Char} {id id' : Option String}
    {e : Edge} :
    Api.locate.edge a missing name id = .ok (e, id') ↔
      name = e.name.toList ∧ e.name ≠ "" ∧ a.edge? e.name = some e ∧ id' = id := by
  unfold Api.locate.edge
  constructor
  · intro h
    split at h
    · cases h
    · rename_i hne
      split at h
      · rename_i e' he
        obtain ⟨rfl, rfl⟩ := Prod.mk.inj (Except.ok.inj h)
        have hname := (Api.edge?_eq_some he).2
        refine ⟨by simp [hname], ?_, by rw [hname]; exact he, rfl⟩
        rintro hempty
        exact hne (by simpa [hempty] using hname)
      · cases h
  · rintro ⟨rfl, hne, he, rfl⟩
    simp [he, hne]

theorem Api.locate_ok {a : Api} {resource : List Char} {e : Edge} {id : Option String} :
    a.locate resource = .ok (e, id) ↔
      a.edge? e.name = some e ∧ IsSegment e.name ∧ (∀ i, id = some i → IsSegment i) ∧
        trimEnd (· = '/') resource = (resourcePath e.name id).toList := by
  simp only [Api.locate]
  generalize trimEnd (· = '/') resource = path
  constructor
  · intro h
    split at h
    · rename_i name hsplit
      obtain ⟨hpath, hslash⟩ := (Text.splitOn_eq_iff (by simp)).mp hsplit
      obtain ⟨rfl, hne, he, rfl⟩ := Api.locate_edge_ok.mp h
      exact ⟨he, ⟨hne, by simpa using hslash⟩, nofun, by simpa [resourcePath] using hpath⟩
    · rename_i name i hsplit
      obtain ⟨hpath, hslash⟩ := (Text.splitOn_eq_iff (by simp)).mp hsplit
      split at h
      · cases h
      · rename_i hi
        obtain ⟨rfl, hne, he, rfl⟩ := Api.locate_edge_ok.mp h
        simp only [List.forall_mem_cons] at hslash
        refine ⟨he, ⟨hne, hslash.1⟩, ?_, ?_⟩
        · rintro _ ⟨⟩
          exact ⟨by simpa using hi, by simpa using hslash.2.1⟩
        · simpa [resourcePath, List.intercalate_cons_cons] using hpath
    · cases h
  · rintro ⟨he, ⟨hne, hslash⟩, hid, rfl⟩
    cases id with
    | none =>
      have hsplit : (resourcePath e.name none).toList.splitOn '/' = [e.name.toList] :=
        (Text.splitOn_eq_iff (by simp)).mpr ⟨by simp [resourcePath], by simpa using hslash⟩
      simp only [hsplit]
      exact Api.locate_edge_ok.mpr ⟨rfl, hne, he, rfl⟩
    | some i =>
      obtain ⟨hi, hislash⟩ := hid i rfl
      have hsplit : (resourcePath e.name (some i)).toList.splitOn '/' =
          [e.name.toList, i.toList] :=
        (Text.splitOn_eq_iff (by simp)).mpr
          ⟨by simp [resourcePath, List.intercalate_cons_cons], by simp [hslash, hislash]⟩
      simp only [hsplit, String.toList_eq_nil_iff, hi, if_false, String.ofList_toList]
      exact Api.locate_edge_ok.mpr ⟨rfl, hne, he, rfl⟩

theorem Api.locate_error {a : Api} {resource : List Char} {err : Error}
    (h : a.locate resource = .error err) :
    err = .notFound (.ofList ('/' :: trimEnd (· = '/') resource)) := by
  unfold Api.locate Api.locate.edge at h
  grind

theorem resourcePath_ne_nil {e : String} {id : Option String} (he : IsSegment e) :
    (resourcePath e id).toList ≠ [] := by
  cases id <;> simp [resourcePath, he.1]

-- ---------------------------------------------------------------------------
-- Slashes at the end
-- ---------------------------------------------------------------------------

theorem trimEnd_append_slashes (path : List Char) (n : Nat) :
    trimEnd (· = '/') (path ++ List.replicate n '/') = trimEnd (· = '/') path :=
  Text.trimEnd_append_of_all (by simp)

theorem Api.locate_append_slashes (a : Api) (resource : List Char) (n : Nat) :
    a.locate (resource ++ List.replicate n '/') = a.locate resource := by
  unfold Api.locate
  rw [trimEnd_append_slashes]

/-- A text that does not end in a slash stands before one in a path with
slashes added to it only if it is the path or stands before one in the path. -/
theorem append_slashes_eq {path rest : List Char} {n : Nat} (head : List Char)
    (h : path ++ List.replicate n '/' = head ++ '/' :: rest) (hlast : head.getLast? ≠ some '/') :
    path = head ∨ ∃ rest', path = head ++ '/' :: rest' := by
  rcases List.append_eq_append_iff.mp h with ⟨middle, hhead, hslashes⟩ | ⟨middle, hpath, hrest⟩
  · have hmiddle : ∀ c ∈ middle, c = '/' := by
      intro c hc
      have : c ∈ List.replicate n '/' := by rw [hslashes]; exact List.mem_append_left _ hc
      exact List.eq_of_mem_replicate this
    -- what is added would be the end of `head`, which has no slash there
    cases hl : middle.getLast? with
    | none => exact .inl (by simpa [List.getLast?_eq_none_iff.mp hl] using hhead.symm)
    | some c =>
      have hc := hmiddle c (List.mem_of_getLast? hl)
      rw [hhead, List.getLast?_append, hl, hc] at hlast
      exact absurd rfl hlast
  · cases middle with
    | nil => exact .inl (by simpa using hpath)
    | cons c middle =>
      obtain ⟨rfl, -⟩ := List.cons.inj hrest
      exact .inr ⟨middle, hpath⟩

theorem trimEnd_resourcePath {e : String} {id : Option String} (he : IsSegment e)
    (hid : ∀ i, id = some i → IsSegment i) :
    trimEnd (· = '/') (resourcePath e id).toList = (resourcePath e id).toList := by
  apply Text.trimEnd_eq_self
  intro c hc hslash
  obtain rfl : c = '/' := by simpa using hslash
  cases id with
  | none => exact he.2 (List.mem_of_getLast? hc)
  | some i =>
    obtain ⟨hne, hi⟩ := hid i rfl
    have hpath : (resourcePath e (some i)).toList = (e.toList ++ ['/']) ++ i.toList := by
      simp [resourcePath]
    rw [hpath, List.getLast?_append_of_ne_nil _ (by simpa using hne)] at hc
    exact hi (List.mem_of_getLast? hc)

theorem Api.locate_name (a : Api) {name : String} (h : IsSegment name) :
    a.locate name.toList =
      match a.edge? name with
      | some e => .ok (e, none)
      | none => .error (.notFound ("/" ++ name)) := by
  have hid : ∀ i, (none : Option String) = some i → IsSegment i := nofun
  have htrim := trimEnd_resourcePath h hid
  simp only [resourcePath] at htrim
  have hsplit : name.toList.splitOn '/' = [name.toList] :=
    (Text.splitOn_eq_iff (by simp)).mpr ⟨by simp, by simpa using h.2⟩
  have hmissing : String.ofList ('/' :: name.toList) = "/" ++ name :=
    String.toList_inj.mp (by simp)
  have hne : name.toList ≠ [] := by simpa using h.1
  cases he : a.edge? name <;>
    simp only [locate, htrim, hsplit, locate.edge, if_neg hne, String.ofList_toList, hmissing, he]

theorem Api.locate_segment {a : Api} {name : String} {e : Edge} {id : Option String}
    (hname : IsSegment name) (h : a.locate name.toList = .ok (e, id)) : a.edge? name = some e := by
  rw [a.locate_name hname] at h
  cases he : a.edge? name <;> simp_all

theorem versioned?_append {path version rest : List Char} (more : List Char)
    (h : versioned? path = some (version, rest)) :
    versioned? (path ++ more) = some (version, rest ++ more) := by
  obtain ⟨rfl, hversion⟩ := versioned?_eq_some.mp h
  exact versioned?_eq_some.mpr ⟨by simp, hversion⟩

/-- Slashes make a path ask for a version only if it lacked just the one after it. -/
theorem eq_of_versioned?_append_slashes {path version rest : List Char} {n : Nat}
    (hnone : versioned? path = none)
    (h : versioned? (path ++ List.replicate n '/') = some (version, rest)) :
    path = '/' :: 'v' :: version := by
  obtain ⟨hpath, hne, hslash⟩ := versioned?_eq_some.mp h
  have hlast : ('/' :: 'v' :: version).getLast? ≠ some '/' := by
    intro hlast
    obtain ⟨c, hc⟩ := Option.ne_none_iff_exists'.mp (mt List.getLast?_eq_none_iff.mp hne)
    have : c = '/' := by simpa [List.getLast?_cons, hc] using hlast
    exact hslash (this ▸ List.mem_of_getLast? hc)
  rcases append_slashes_eq ('/' :: 'v' :: version) hpath hlast with rfl | ⟨rest', rfl⟩
  · rfl
  · have hsome : versioned? ('/' :: 'v' :: version ++ '/' :: rest') = some (version, rest') :=
      versioned?_eq_some.mpr ⟨rfl, hne, hslash⟩
    rw [hsome] at hnone
    cases hnone

theorem unversioned_append_slashes {path : List Char} (n : Nat) (hne : path ≠ [])
    (hapi : path ≠ "/api".toList) :
    unversioned (path ++ List.replicate n '/') = unversioned path ++ List.replicate n '/' := by
  cases hfront : "/api/".toList.isPrefixOf? path with
  | some rest =>
    obtain rfl := List.isPrefixOf?_eq_some_iff_append_eq.mp hfront
    rw [List.append_assoc, unversioned_api, unversioned_api]
  | none =>
    have hmore : "/api/".toList.isPrefixOf? (path ++ List.replicate n '/') = none := by
      cases h : "/api/".toList.isPrefixOf? (path ++ List.replicate n '/') with
      | none => rfl
      | some rest =>
        have hpath := (List.isPrefixOf?_eq_some_iff_append_eq.mp h).symm
        rcases append_slashes_eq "/api".toList hpath (by decide) with h | ⟨rest', rfl⟩
        · exact absurd h hapi
        · cases hfront
    unfold unversioned
    rw [hmore, hfront]
    cases path with
    | nil => exact absurd rfl hne
    | cons c path =>
      by_cases hc : c = '/'
      · subst hc
        rfl
      · simp [hc]

end RestQuery

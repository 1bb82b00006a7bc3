import RestQuery.Query.Window

/-!
# Windows that counts ask for

The window of a page starts after the pages before it, or at the largest count
if that is past it (`toNat_skip_ofPage`). A page and a limit that are both
positive ask for that window (`ofCounts?_page`), and a window with a page
number never comes from anything else (`eq_ofPage_of_page`). Without a page the
window starts where `skip` says (`ofCounts?_no_page`), and nothing but three
absent counts asks for no window (`ofCounts?_eq_none`).
-/

namespace RestQuery.Window

variable {page limit d : UInt64} {limit? skip? page? : Option UInt64} {w : Window}

theorem one_le_iff {n : UInt64} : 1 ≤ n ↔ 0 < n.toNat := UInt64.le_iff_toNat_le

theorem one_le_iff_ne_zero {n : UInt64} : 1 ≤ n ↔ n ≠ 0 := by
  rw [one_le_iff, Nat.pos_iff_ne_zero]
  exact not_congr (UInt64.toNat_inj (b := 0))

theorem one_le_of_pos {n : UInt64} (h : 0 < n) : 1 ≤ n :=
  one_le_iff.mpr (UInt64.lt_iff_toNat_lt.mp h)

theorem toNat_skip_ofPage (hpage : 1 ≤ page) (limit : UInt64) :
    (ofPage page limit).skip.toNat =
      min ((page.toNat - 1) * limit.toNat) (UInt64.size - 1) := by
  change (saturatingMul (page - 1) limit).toNat = _
  rw [toNat_saturatingMul, UInt64.toNat_sub_of_le _ _ hpage]
  rfl

theorem size_some (hlimit : 1 ≤ limit) (d : UInt64) : size (some limit) d = limit := by
  simp [size, Option.filter_some, one_le_iff_ne_zero.mp hlimit]

theorem toNat_size_default (h : ∀ limit, limit? = some limit → limit = 0) :
    (size limit? d).toNat = max d.toNat 1 := by
  have hnone : limit?.filter (· ≠ 0) = none := by simpa using h
  simp only [size, hnone, ← UInt64.toNat_inj, UInt64.toNat_zero]
  split
  · rename_i hd
    simp [hd]
  · omega

theorem limit_of_ofCounts? (h : ofCounts? d limit? skip? page? = some w) :
    w.limit = size limit? d := by
  unfold ofCounts? at h
  split at h
  · cases h
  · simp only at h
    split at h <;> cases h <;> rfl

theorem ofCounts?_some_page (hpage : 1 ≤ page) :
    ofCounts? d limit? skip? (some page) = some (ofPage page (size limit? d)) := by
  simp [ofCounts?, Option.filter_some, one_le_iff_ne_zero.mp hpage]

theorem ofCounts?_page (hpage : 1 ≤ page) (hlimit : 1 ≤ limit) (d : UInt64)
    (skip? : Option UInt64) :
    ofCounts? d (some limit) skip? (some page) = some (ofPage page limit) := by
  rw [ofCounts?_some_page hpage, size_some hlimit]

theorem ofCounts?_no_page (h : ofCounts? d limit? skip? page? = some w)
    (hpage : ∀ page, page? = some page → page = 0) : w.page = none ∧ w.skip = skip?.getD 0 := by
  have hnone : page?.filter (· ≠ 0) = none := by simpa using hpage
  unfold ofCounts? at h
  split at h
  · cases h
  · simp only [hnone, Option.some.injEq] at h
    subst h
    exact ⟨rfl, rfl⟩

theorem eq_ofPage_of_page (h : ofCounts? d limit? skip? page? = some w)
    (hpage : w.page = some page) : w = ofPage page w.limit := by
  unfold ofCounts? at h
  split at h
  · cases h
  · simp only at h
    split at h
    · cases h
      cases hpage
      rfl
    · cases h
      cases hpage

theorem ofCounts?_eq_none :
    ofCounts? d limit? skip? page? = none ↔ limit? = none ∧ skip? = none ∧ page? = none := by
  unfold ofCounts?
  split
  · simp
  · rename_i h
    simp only
    split
    · simpa using h
    · simpa using h

end RestQuery.Window

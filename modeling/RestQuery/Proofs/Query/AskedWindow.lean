import Mathlib.Algebra.Group.Nat.Defs
import RestQuery.Proofs.Parameters.Entries
import RestQuery.Proofs.Query.Dependence
import RestQuery.Proofs.Query.Sound
import RestQuery.Proofs.Text.Counts

/-!
# The window that is asked for

A window key `Holds` a number when the last text of its value denotes one in
range. `Window.AskedFor` says in unbounded arithmetic which window the numbers
of `limit`, `skip` and `page` ask for. Every query that is read has that window,
and none exactly when no window key holds a number; what these keys hold never
makes a reading fail, nor changes the rest of it (`window_resolved`).
-/

namespace RestQuery

namespace Parameters

/-- The last text of the key denotes `n`, and `n` is at most the largest count. -/
def Holds (p : Parameters) (key : String) (n : Nat) : Prop :=
  n ≤ 2 ^ 64 - 1 ∧ ∃ value text, p.get? key = some value ∧ value.texts.getLast? = some text ∧
    Text.Denotes text.toList n

def without (p : Parameters) (keys : List String) : Parameters where
  entries := p.entries.filter (·.1 ∉ keys)
  nodup := p.nodup.sublist (List.filter_sublist.map _)

variable {p : Parameters} {key : String}

theorem get?_without (keys : List String) :
    (p.without keys).get? key = if key ∈ keys then none else p.get? key :=
  (lookup_filter (· ∉ keys) key p.entries).trans (by simp [get?])

theorem filterEntries_without {keys : List String} (hkeys : keys ⊆ reservedKeys) :
    Query.filterEntries (p.without keys) = Query.filterEntries p := by
  simp only [Query.filterEntries, without, List.filter_filter]
  refine List.filter_congr fun entry _ => ?_
  by_cases hentry : entry.1 ∈ keys
  · simp [hkeys hentry]
  · simp [hentry]

-- ---------------------------------------------------------------------------
-- The number of a key
-- ---------------------------------------------------------------------------

theorem holds_toNat {c : UInt64} : p.Holds key c.toNat ↔ p.count? key = some c := by
  have hc : c.toNat ≤ 2 ^ 64 - 1 := Nat.le_sub_one_of_lt c.toNat_lt
  simp only [Holds, hc, true_and, count?, Option.bind_eq_some_iff, ← Text.count?_eq_some]
  refine exists_congr fun value => ?_
  cases hlast : value.texts.getLast? with
  | some text => simp [Value.last_eq, hlast]
  | none =>
    -- a list of no texts has the empty text as its last, which is no count
    have hempty : Text.count? "" = none := by decide
    simp [Value.last_eq, hlast, hempty]

theorem holds_iff {n : Nat} : p.Holds key n ↔ ∃ c, p.count? key = some c ∧ c.toNat = n := by
  constructor
  · intro h
    have hn : (UInt64.ofNat n).toNat = n :=
      UInt64.toNat_ofNat_of_lt' (Nat.lt_of_le_sub_one (by decide) h.1)
    exact ⟨.ofNat n, holds_toNat.mp (hn.symm ▸ h), hn⟩
  · rintro ⟨c, hc, rfl⟩
    exact holds_toNat.mpr hc

end Parameters

namespace Window

variable {d : UInt64} {w : Window}

/-- The window that the numbers of the window keys ask for, in unbounded arithmetic. A page of at
least 1 wins over `skip`. The subtraction on the way to what a page skips stays above zero, and the
product stops at the largest count. -/
structure AskedFor (p : Parameters) (d : UInt64) (w : Window) : Prop where
  limit : ∀ n, p.Holds "limit" n → 0 < n → w.limit.toNat = n
  default_limit : (∀ n, p.Holds "limit" n → n = 0) → w.limit.toNat = max d.toNat 1
  page : ∀ n, p.Holds "page" n → 0 < n → w.page.map UInt64.toNat = some n ∧
    w.skip.toNat = min ((n - 1) * w.limit.toNat) (2 ^ 64 - 1)
  no_page : (∀ n, p.Holds "page" n → n = 0) → w.page = none ∧
    (∀ n, p.Holds "skip" n → w.skip.toNat = n) ∧ ((∀ n, ¬p.Holds "skip" n) → w.skip = 0)
  steps : ∀ page, w.page = some page →
    w.skip = saturatingMul (page - 1) w.limit ∧ (page - 1).toNat + 1 = page.toNat

theorem askedFor_of_read? {p : Parameters} (h : read? d p = some w) : AskedFor p d w := by
  have hlimit : w.limit = size (p.count? "limit") d := limit_of_ofCounts? h
  refine ⟨?_, ?_, ?_, ?_, ?_⟩
  · intro n hn hpos
    obtain ⟨limit, hcount, rfl⟩ := Parameters.holds_iff.mp hn
    rw [hlimit, hcount, size_some (one_le_iff.mpr hpos)]
  · intro hzero
    rw [hlimit]
    refine toNat_size_default fun limit hcount => ?_
    exact UInt64.toNat_inj.mp (hzero _ (Parameters.holds_toNat.mpr hcount))
  · intro n hn hpos
    obtain ⟨page, hcount, rfl⟩ := Parameters.holds_iff.mp hn
    rw [read?, hcount, ofCounts?_some_page (one_le_iff.mpr hpos), ← hlimit] at h
    have hw : w = ofPage page w.limit := (Option.some.inj h).symm
    have hskip : w.skip = (ofPage page w.limit).skip := congrArg skip hw
    refine ⟨by rw [hw]; rfl, ?_⟩
    rw [hskip]
    exact toNat_skip_ofPage (one_le_iff.mpr hpos) w.limit
  · intro hzero
    obtain ⟨hpage, hskip⟩ := ofCounts?_no_page h fun page hcount =>
      UInt64.toNat_inj.mp (hzero _ (Parameters.holds_toNat.mpr hcount))
    refine ⟨hpage, ?_, ?_⟩
    · intro n hn
      obtain ⟨skip, hcount, rfl⟩ := Parameters.holds_iff.mp hn
      simp [hskip, hcount]
    · intro hnone
      have hcount : p.count? "skip" = none :=
        Option.eq_none_iff_forall_ne_some.mpr fun skip hskip =>
          hnone _ (Parameters.holds_toNat.mpr hskip)
      simp [hskip, hcount]
  · intro page hpage
    have hone : 1 ≤ page := (ofCounts?_sound h).2 page hpage
    have hskip : w.skip = (ofPage page w.limit).skip :=
      congrArg skip (eq_ofPage_of_page h hpage)
    have hsub : (page - 1).toNat = page.toNat - 1 := UInt64.toNat_sub_of_le _ _ hone
    have hpos : 0 < page.toNat := one_le_iff.mp hone
    exact ⟨hskip, by omega⟩

theorem read?_eq_none {p : Parameters} :
    read? d p = none ↔ ∀ key ∈ windowKeys, ∀ n, ¬p.Holds key n := by
  have hkey (key : String) : p.count? key = none ↔ ∀ n, ¬p.Holds key n := by
    simp [Parameters.holds_iff, Option.eq_none_iff_forall_ne_some]
  simp [read?, ofCounts?_eq_none, windowKeys, hkey]

end Window

namespace Query

/-- Every query that is read has the window that its window keys ask for, and none when they hold no
number. Without these keys the reading is the same but for the window, so nothing that they hold
makes it fail. -/
theorem window_resolved (e : Edge) (d : UInt64) (p : Parameters) :
    (fun q : Query => { q with window := none }) <$> read e d p = read e d (p.without windowKeys) ∧
    ∀ q, read e d p = .ok q →
      (q.window = none ↔ ∀ key ∈ windowKeys, ∀ n, ¬p.Holds key n) ∧
      ∀ w, q.window = some w → w.AskedFor p d := by
  constructor
  · have hitems : ∀ key ∈ listKeys, p.items key = (p.without windowKeys).items key := by
      intro key hkey
      simp [Parameters.items, Parameters.get?_without, (listKeys_apart key hkey).2]
    have hfilters : filterEntries p = filterEntries (p.without windowKeys) :=
      (Parameters.filterEntries_without fun key hkey => (windowKeys_apart key hkey).1).symm
    have hwindow : Window.read? d (p.without windowKeys) = none := by
      refine Window.read?_eq_none.mpr ?_
      rintro key hkey n ⟨-, value, text, hvalue, -⟩
      simp [Parameters.get?_without, hkey] at hvalue
    rw [← map_read hitems hfilters, hwindow]
  · intro q h
    obtain ⟨_, _, _, _, -, -, -, -, rfl⟩ := read_ok.mp h
    exact ⟨Window.read?_eq_none, fun w hw => Window.askedFor_of_read? hw⟩

-- a list of no texts holds no number, and neither does a number past the largest count
example : Window.read? 0 { entries := [("limit", .many ["9", " +007\u00A0"]), ("skip", .many []),
    ("page", .one "18446744073709551616")], nodup := by decide } = some ⟨0, 7, none⟩ := by decide

end Query

end RestQuery

import Mathlib.Algebra.Order.Floor.Div
import Mathlib.Algebra.Order.Group.Nat
import RestQuery.Proofs.Query.Rendering

/-!
# Pages tile a collection

Pages of one size, counted from 1, hold every record of a collection exactly
once, and the page count that goes with the answer is the last page that holds
one (`pages_tile`). Below the largest count the window of a page is what
division says (`holds_ofPage_iff`). A page further out starts at the largest
count; a collection ends before it, so nothing is held twice there.
-/

namespace RestQuery

namespace Window

variable {page limit total : UInt64}

/-- The record of index `i` is in the window, whose end may be past the largest count. -/
def Holds (w : Window) (i : Nat) : Prop :=
  w.skip.toNat ≤ i ∧ i < w.skip.toNat + w.limit.toNat

instance (w : Window) (i : Nat) : Decidable (w.Holds i) := by unfold Holds; infer_instance

-- ---------------------------------------------------------------------------
-- The window of a page
-- ---------------------------------------------------------------------------

theorem holds_ofPage_iff {i : Nat} (hpage : 1 ≤ page) (hlimit : 1 ≤ limit)
    (hi : i < UInt64.size - 1) :
    (ofPage page limit).Holds i ↔ i / limit.toNat = page.toNat - 1 := by
  have hpos : 0 < limit.toNat := one_le_iff.mp hlimit
  rw [Nat.div_eq_iff hpos, Holds, toNat_skip_ofPage hpage]
  change _ ∧ _ < _ + limit.toNat ↔ _
  generalize (page.toNat - 1) * limit.toNat = skip
  omega

theorem exists_page {i : Nat} (hlimit : 1 ≤ limit) (hi : i < UInt64.size - 1) :
    ∃ page, 1 ≤ page ∧ (ofPage page limit).Holds i := by
  have hfits : i / limit.toNat + 1 < UInt64.size := by
    have hquotient := Nat.div_le_self i limit.toNat
    omega
  have hpage : (UInt64.ofNat (i / limit.toNat + 1)).toNat = i / limit.toNat + 1 :=
    UInt64.toNat_ofNat_of_lt' hfits
  have hone : 1 ≤ UInt64.ofNat (i / limit.toNat + 1) := by
    rw [one_le_iff, hpage]
    exact Nat.succ_pos _
  refine ⟨_, hone, ?_⟩
  rw [holds_ofPage_iff hone hlimit hi, hpage]
  rfl

theorem page_unique {i : Nat} {other : UInt64} (hlimit : 1 ≤ limit) (hi : i < UInt64.size - 1)
    (hpage : 1 ≤ page) (hother : 1 ≤ other) (h : (ofPage page limit).Holds i)
    (h' : (ofPage other limit).Holds i) : page = other := by
  rw [holds_ofPage_iff hpage hlimit hi] at h
  rw [holds_ofPage_iff hother hlimit hi] at h'
  rw [one_le_iff] at hpage hother
  rw [← UInt64.toNat_inj]
  omega

-- ---------------------------------------------------------------------------
-- The page count
-- ---------------------------------------------------------------------------

theorem toNat_pages (hlimit : 1 ≤ limit) (total : UInt64) :
    (Query.totalCount.pages total limit).toNat = total.toNat ⌈/⌉ limit.toNat := by
  have hpos : 0 < limit.toNat := one_le_iff.mp hlimit
  have hceil : total.toNat ⌈/⌉ limit.toNat =
      total.toNat / limit.toNat + if total.toNat % limit.toNat = 0 then 0 else 1 := by
    rw [Nat.ceilDiv_eq_add_pred_div, Nat.add_sub_assoc hpos, Nat.add_div hpos,
      Nat.div_eq_of_lt (Nat.sub_one_lt_of_lt hpos), Nat.mod_eq_of_lt (Nat.sub_one_lt_of_lt hpos)]
    split <;> split <;> omega
  have hle : total.toNat ⌈/⌉ limit.toNat ≤ total.toNat :=
    (ceilDiv_le_iff_le_mul hpos).mpr (Nat.le_mul_of_pos_left _ hpos)
  have hlast : (if total % limit = 0 then (0 : UInt64) else 1).toNat =
      if total.toNat % limit.toNat = 0 then 0 else 1 := by
    simp only [← UInt64.toNat_inj, UInt64.toNat_mod]
    split <;> simp_all
  rw [Query.totalCount.pages, UInt64.toNat_add, UInt64.toNat_div, hlast, ← hceil]
  exact Nat.mod_eq_of_lt (hle.trans_lt total.toNat_lt)

/-- A page starts within the collection exactly when it is counted. -/
theorem skip_ofPage_lt_iff (hpage : 1 ≤ page) (hlimit : 1 ≤ limit) :
    (ofPage page limit).skip < total ↔ page ≤ Query.totalCount.pages total limit := by
  have htotal : total.toNat < UInt64.size := total.toNat_lt
  calc (ofPage page limit).skip < total
      ↔ (page.toNat - 1) * limit.toNat < total.toNat := by
        -- a start that saturates is no longer below the total, and neither is the product
        rw [UInt64.lt_iff_toNat_lt, toNat_skip_ofPage hpage]
        generalize (page.toNat - 1) * limit.toNat = skip
        omega
    _ ↔ page.toNat - 1 < total.toNat ⌈/⌉ limit.toNat := by
        rw [← not_le, ← not_le, ceilDiv_le_iff_le_mul (one_le_iff.mp hlimit), Nat.mul_comm]
    _ ↔ page ≤ Query.totalCount.pages total limit := by
        rw [one_le_iff] at hpage
        rw [UInt64.le_iff_toNat_le, toNat_pages hlimit]
        omega

/-- The pages of `limit` records hold each record of a collection of `total`
once, and `count` is the last of them that starts within it. -/
structure Tiles (limit total count : UInt64) : Prop where
  held : ∀ i < total.toNat, ∃ page, 1 ≤ page ∧ page ≤ count ∧ (ofPage page limit).Holds i
  once : ∀ i < total.toNat, ∀ page other, 1 ≤ page → 1 ≤ other →
    (ofPage page limit).Holds i → (ofPage other limit).Holds i → page = other
  counted : ∀ page, 1 ≤ page → ((ofPage page limit).skip < total ↔ page ≤ count)

theorem tiles (hlimit : 1 ≤ limit) (total : UInt64) :
    Tiles limit total (Query.totalCount.pages total limit) := by
  have below {i : Nat} (hi : i < total.toNat) : i < UInt64.size - 1 := by
    have htotal : total.toNat < UInt64.size := total.toNat_lt
    omega
  refine ⟨fun i hi => ?_, fun i hi page other => page_unique hlimit (below hi),
    fun page hpage => skip_ofPage_lt_iff hpage hlimit⟩
  obtain ⟨page, hpage, h⟩ := exists_page hlimit (below hi)
  have hstart : (ofPage page limit).skip < total :=
    UInt64.lt_iff_toNat_lt.mpr (h.1.trans_lt hi)
  exact ⟨page, hpage, (skip_ofPage_lt_iff hpage hlimit).mp hstart, h⟩

-- ---------------------------------------------------------------------------
-- Asking for a page
-- ---------------------------------------------------------------------------

theorem read?_page {d : UInt64} {p : Parameters} (hpage : 1 ≤ page) (hlimit : 1 ≤ limit)
    (hp : p.count? "page" = some page) (hl : p.count? "limit" = some limit) :
    read? d p = some (ofPage page limit) := by
  rw [read?, hp, hl, ofCounts?_page hpage hlimit]

end Window

namespace Query

variable {page limit : UInt64}

def pageParameters (page limit : UInt64) : Parameters :=
  .ofPairs [("page", Text.decimal page), ("limit", Text.decimal limit)]

theorem entries_pageParameters (page limit : UInt64) : (pageParameters page limit).entries =
    [("page", .one (Text.decimal page)), ("limit", .one (Text.decimal limit))] := rfl

theorem count?_page (page limit : UInt64) :
    (pageParameters page limit).count? "page" = some page := by
  simp [Parameters.count?, Parameters.get?, entries_pageParameters, Value.last,
    Text.count?_decimal]

theorem count?_limit (page limit : UInt64) :
    (pageParameters page limit).count? "limit" = some limit := by
  simp [Parameters.count?, Parameters.get?, entries_pageParameters, List.lookup_cons, Value.last,
    Text.count?_decimal]

theorem read_pageParameters (e : Edge) (d : UInt64) (hpage : 1 ≤ page) (hlimit : 1 ≤ limit) :
    read e d (pageParameters page limit) = .ok { window := some (.ofPage page limit) } := by
  rw [← Window.read?_page hpage hlimit (count?_page page limit) (count?_limit page limit)]
  exact read_ok.mpr ⟨[], [], [], [], rfl, rfl, rfl, rfl, rfl⟩

theorem totalCount_ofPage {q : Query} (hlimit : 1 ≤ limit) (total : UInt64)
    (h : q.window = some (.ofPage page limit)) :
    q.totalCount total = totalCount.pages total limit := by
  rw [totalCount, h]
  exact if_neg (Window.one_le_iff_ne_zero.mp hlimit)

/-- Pages of a size tile the collection, up to the count that every query for
such a page gives. The windows are those of the queries: a page and a size that
are asked for give the window of that page, and so does a page of a size that
was not asked for. -/
theorem pages_tile {limit : UInt64} (hlimit : 1 ≤ limit) (total : UInt64) :
    ∃ count, Window.Tiles limit total count ∧
      (∀ e d page, 1 ≤ page →
        read e d (pageParameters page limit) = .ok { window := some (.ofPage page limit) }) ∧
      ∀ e d p q, read e d p = .ok q →
        (∀ page, 1 ≤ page → p.count? "page" = some page → p.count? "limit" = some limit →
          q.window = some (.ofPage page limit)) ∧
        ∀ w page, q.window = some w → w.page = some page → w.limit = limit →
          w = .ofPage page limit ∧ q.totalCount total = count := by
  refine ⟨totalCount.pages total limit, Window.tiles hlimit total,
    fun e d page hpage => read_pageParameters e d hpage hlimit, ?_⟩
  intro e d p q h
  obtain ⟨_, _, _, _, -, -, -, -, rfl⟩ := read_ok.mp h
  refine ⟨fun page hpage hp hl => Window.read?_page hpage hlimit hp hl, ?_⟩
  rintro w page hw hpage rfl
  have hpage' : w = .ofPage page w.limit := Window.eq_ofPage_of_page hw hpage
  exact ⟨hpage', totalCount_ofPage hlimit total (hw.trans (congrArg some hpage'))⟩

/-- Two pages hold the largest collection; a third starts at its end and stays there. -/
theorem pages_tile_widest : (1 : UInt64) ≤ 9223372036854775808 ∧
    ∃ count, Window.Tiles 9223372036854775808 18446744073709551615 count ∧ count = 2 ∧
      (Window.ofPage 3 9223372036854775808).skip = 18446744073709551615 ∧
      (Window.ofPage 4 9223372036854775808).skip = 18446744073709551615 := by
  have hlimit : (1 : UInt64) ≤ 9223372036854775808 := by decide
  obtain ⟨count, htiles, hread, hcount⟩ := pages_tile hlimit 18446744073709551615
  have hone := hread ⟨"users", [], []⟩ 0 1 (by decide)
  obtain ⟨-, htotal⟩ := (hcount _ _ _ _ hone).2 _ 1 rfl rfl rfl
  exact ⟨hlimit, count, htiles, htotal.symm, by decide, by decide⟩

example : ({ window := some (.ofPage 4 3) } : Query).totalCount 10 = 4 := by decide

end Query

end RestQuery

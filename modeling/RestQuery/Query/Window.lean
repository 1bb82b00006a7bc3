import RestQuery.Query

/-!
# Windows from parameters

`limit`, `skip` and `page` ask for a window of records. Each counts only if its
last value is a numeral; what is not one is as good as absent, so these keys
never fail. Arithmetic stops at the largest count.
-/

namespace RestQuery

def saturatingMul (a b : UInt64) : UInt64 :=
  if a.toNat * b.toNat < UInt64.size then a * b else .ofNat (UInt64.size - 1)

theorem toNat_saturatingMul (a b : UInt64) :
    (saturatingMul a b).toNat = min (a.toNat * b.toNat) (UInt64.size - 1) := by
  unfold saturatingMul
  split
  · rename_i h
    rw [UInt64.toNat_mul, Nat.mod_eq_of_lt h]
    simp only [UInt64.size] at h ⊢
    omega
  · rename_i h
    have : (UInt64.ofNat (UInt64.size - 1)).toNat = UInt64.size - 1 := by decide
    rw [this]
    simp only [UInt64.size] at h ⊢
    omega

def Parameters.count? (p : Parameters) (key : String) : Option UInt64 :=
  (p.get? key).bind fun v => Text.count? v.last

namespace Window

/-- The limit if it is positive, else the default one, else 1. -/
def size (limit? : Option UInt64) (defaultLimit : UInt64) : UInt64 :=
  match limit?.filter (· ≠ 0) with
  | some limit => limit
  | none => if defaultLimit = 0 then 1 else defaultLimit

theorem size_ne_zero (limit? : Option UInt64) (defaultLimit : UInt64) :
    size limit? defaultLimit ≠ 0 := by
  unfold size
  split
  · rename_i limit h
    simpa using (Option.filter_eq_some_iff.mp h).2
  · split
    · decide
    · assumption

/-- The window of a page, pages being counted from 1. -/
def ofPage (page limit : UInt64) : Window :=
  ⟨saturatingMul (page - 1) limit, limit, some page⟩

/-- The window that counts ask for. A page of at least 1 wins over `skip`. -/
def ofCounts? (defaultLimit : UInt64) : (limit? skip? page? : Option UInt64) → Option Window
  | none, none, none => none
  | limit?, skip?, page? =>
    let limit := size limit? defaultLimit
    match page?.filter (· ≠ 0) with
    | some page => some (ofPage page limit)
    | none => some ⟨skip?.getD 0, limit, none⟩

def read? (defaultLimit : UInt64) (p : Parameters) : Option Window :=
  ofCounts? defaultLimit (p.count? "limit") (p.count? "skip") (p.count? "page")

end Window

end RestQuery

import RestQuery.Text.Space

/-!
# Decimal numerals

A count is an unsigned 64-bit number. `numeral?` reads the digits of one, with
any leading zeros; a numeral past the range is none. `decimal` writes it without
leading zeros. Where people type a count, `count?` also allows white space around
it and one `+` before it.
-/

namespace RestQuery.Text

def digit? (c : Char) : Option Nat :=
  if '0' ≤ c ∧ c ≤ '9' then some (c.toNat - '0'.toNat) else none

def ofDigits (base : Nat) (digits : List Nat) : Nat :=
  digits.foldl (fun n d => n * base + d) 0

def natural? (cs : List Char) : Option Nat :=
  if cs = [] then none else (cs.mapM digit?).map (ofDigits 10)

theorem digit?_of_isDigit {c : Char} (h : c.isDigit) : digit? c = some (c.toNat - '0'.toNat) := by
  simpa [Char.isDigit, digit?, Char.le_def] using h

theorem natural?_of_isDigit {cs : List Char} (hne : cs ≠ []) (h : ∀ c ∈ cs, c.isDigit) :
    natural? cs = some (Nat.ofDigitChars 10 cs 0) := by
  have hm : cs.mapM digit? = some (cs.map fun c => c.toNat - '0'.toNat) := by
    clear hne
    induction cs with
    | nil => rfl
    | cons c cs ih =>
      rw [List.forall_mem_cons] at h
      simp [List.mapM_cons, digit?_of_isDigit h.1, ih h.2]
  simp [natural?, hne, hm, ofDigits, Nat.ofDigitChars, List.foldl_map, Nat.mul_comm]

theorem isDigit_toDigits (n : Nat) : ∀ c ∈ Nat.toDigits 10 n, c.isDigit := fun _ hc =>
  Nat.isDigit_of_mem_toDigits (by decide) (by decide) hc

theorem toDigits_eq_cons (n : Nat) : ∃ c ds, Nat.toDigits 10 n = c :: ds ∧ c.isDigit := by
  obtain ⟨c, ds, hds⟩ := List.exists_cons_of_ne_nil (Nat.toDigits_ne_nil (b := 10) (n := n))
  exact ⟨c, ds, hds, isDigit_toDigits n c (hds ▸ List.mem_cons_self)⟩

def numeral? (cs : List Char) : Option UInt64 :=
  match natural? cs with
  | some n => if n < UInt64.size then some (UInt64.ofNat n) else none
  | none => none

def decimal (n : UInt64) : String := .ofList (Nat.toDigits 10 n.toNat)

def unsigned (cs : List Char) : List Char :=
  match cs with
  | '+' :: rest => rest
  | _ => cs

def count? (text : String) : Option UInt64 := numeral? (unsigned (strip text.toList))

end RestQuery.Text

import RestQuery.Json
import RestQuery.Text.Numeral

/-!
# The text of a value determines it

No value has the text of another (`pretty_inj`). The text is read from the
left: the first character tells the kind of a value, and the value is over
where its text is, whatever follows, as long as no digit does
(`selfDelimiting_chars`). So a text has one value and one rest.
-/

namespace RestQuery.Json

open Text (isDigit_toDigits toDigits_eq_cons)

variable {rest rest' : List Char}

-- ---------------------------------------------------------------------------
-- Strings
-- ---------------------------------------------------------------------------

inductive Written : Char → List Char → Prop
  | short {c letter : Char} (h : (c, letter) ∈ shortEscapes) : Written c ['\\', letter]
  | control {c : Char} (h : c.toNat < 0x20) :
    Written c ['\\', 'u', '0', '0', Nat.digitChar (c.toNat / 16), Nat.digitChar (c.toNat % 16)]
  | itself {c : Char} (hquote : c ≠ '"') (hslash : c ≠ '\\') : Written c [c]

theorem written_escape (c : Char) : Written c (escape c) := by
  unfold escape
  split
  next letter h =>
    obtain ⟨before, after, hescapes, -⟩ := List.lookup_eq_some_iff.mp h
    exact .short (by simp [hescapes])
  next h =>
    split
    next hcontrol => exact .control hcontrol
    next => refine .itself ?_ ?_ <;> rintro rfl <;> simp [shortEscapes] at h

theorem short_inj : ∀ p ∈ shortEscapes, ∀ q ∈ shortEscapes, p.2 = q.2 → p.1 = q.1 := by decide

theorem short_ne_u : ∀ p ∈ shortEscapes, p.2 ≠ 'u' := by decide

theorem digitChar_inj : ∀ m < 16, ∀ n < 16, Nat.digitChar m = Nat.digitChar n → m = n := by decide

/-- A character is over where its writing is. -/
theorem Written.append_inj {c c' : Char} {cs cs' : List Char} (hc : Written c cs)
    (hc' : Written c' cs') (h : cs ++ rest = cs' ++ rest') : c = c' ∧ rest = rest' := by
  cases hc with
  | short hs =>
    cases hc' with
    | short hs' =>
      simp only [List.cons_append, List.nil_append, List.cons.injEq, true_and] at h
      exact ⟨short_inj _ hs _ hs' h.1, h.2⟩
    | control =>
      simp only [List.cons_append, List.nil_append, List.cons.injEq, true_and] at h
      exact absurd h.1 (short_ne_u _ hs)
    | itself _ hslash => exact absurd (List.cons.inj h).1.symm hslash
  | control hcontrol =>
    cases hc' with
    | short hs' =>
      simp only [List.cons_append, List.nil_append, List.cons.injEq, true_and] at h
      exact absurd h.1.symm (short_ne_u _ hs')
    | control hcontrol' =>
      simp only [List.cons_append, List.nil_append, List.cons.injEq, true_and] at h
      have hhigh := digitChar_inj _ (by omega) _ (by omega) h.1
      have hlow := digitChar_inj _ (by omega) _ (by omega) h.2.1
      exact ⟨Char.toNat_inj.mp (by omega), h.2.2⟩
    | itself _ hslash => exact absurd (List.cons.inj h).1.symm hslash
  | itself _ hslash =>
    cases hc' with
    | short => exact absurd (List.cons.inj h).1 hslash
    | control => exact absurd (List.cons.inj h).1 hslash
    | itself => exact List.cons.inj h

theorem Written.ne_quote {c : Char} {cs : List Char} (hc : Written c cs) :
    cs ++ rest ≠ '"' :: rest' := by
  cases hc with
  | short => simp
  | control => simp
  | itself hquote => simp [hquote]

theorem body_append_inj {cs cs' : List Char}
    (h : cs.flatMap escape ++ '"' :: rest = cs'.flatMap escape ++ '"' :: rest') :
    cs = cs' ∧ rest = rest' := by
  induction cs generalizing cs' with
  | nil =>
    cases cs' with
    | nil => exact ⟨rfl, (List.cons.inj h).2⟩
    | cons c' cs' =>
      rw [List.flatMap_cons, List.append_assoc] at h
      exact absurd h.symm (written_escape c').ne_quote
  | cons c cs ih =>
    cases cs' with
    | nil =>
      rw [List.flatMap_cons, List.append_assoc] at h
      exact absurd h (written_escape c).ne_quote
    | cons c' cs' =>
      rw [List.flatMap_cons, List.flatMap_cons, List.append_assoc, List.append_assoc] at h
      obtain ⟨rfl, hcs⟩ := (written_escape c).append_inj (written_escape c') h
      obtain ⟨rfl, hrest⟩ := ih hcs
      exact ⟨rfl, hrest⟩

theorem quote_append_inj {s s' : String} (h : quote s ++ rest = quote s' ++ rest') :
    s = s' ∧ rest = rest' := by
  simp only [quote, List.cons_append, List.append_assoc, List.cons.injEq, true_and,
    List.nil_append] at h
  obtain ⟨hs, hrest⟩ := body_append_inj h
  exact ⟨String.toList_inj.mp hs, hrest⟩

-- ---------------------------------------------------------------------------
-- Numbers
-- ---------------------------------------------------------------------------

/-- A text that does not go on with the digits before it. -/
def Stops (rest : List Char) : Prop := ∀ c ∈ rest.head?, ¬c.isDigit

theorem stops_nil : Stops [] := by simp [Stops]

theorem stops_cons {c : Char} (h : ¬c.isDigit) : Stops (c :: rest) := by
  simpa [Stops] using h

theorem takeWhile_of_stops (h : Stops rest) : rest.takeWhile Char.isDigit = [] := by
  cases rest with
  | nil => rfl
  | cons c cs => exact List.takeWhile_cons_of_neg (h c rfl)

theorem digits_append_inj {ds ds' : List Char} (hds : ∀ c ∈ ds, c.isDigit)
    (hds' : ∀ c ∈ ds', c.isDigit) (hrest : Stops rest) (hrest' : Stops rest')
    (h : ds ++ rest = ds' ++ rest') : ds = ds' ∧ rest = rest' := by
  have hrun := congrArg (List.takeWhile Char.isDigit) h
  rw [List.takeWhile_append_of_pos hds, List.takeWhile_append_of_pos hds',
    takeWhile_of_stops hrest, takeWhile_of_stops hrest', List.append_nil, List.append_nil] at hrun
  obtain rfl := hrun
  exact ⟨rfl, List.append_cancel_left h⟩

theorem toDigits_append_inj {m n : Nat} (hrest : Stops rest) (hrest' : Stops rest')
    (h : Nat.toDigits 10 m ++ rest = Nat.toDigits 10 n ++ rest') : m = n ∧ rest = rest' := by
  obtain ⟨hmn, htail⟩ :=
    digits_append_inj (isDigit_toDigits m) (isDigit_toDigits n) hrest hrest' h
  refine ⟨?_, htail⟩
  have hvalue := congrArg (Nat.ofDigitChars 10 · 0) hmn
  simpa [Nat.ofDigitChars_toDigits] using hvalue

theorem toDigits_ne_minus (n : Nat) : Nat.toDigits 10 n ++ rest ≠ '-' :: rest' := by
  obtain ⟨c, ds, hds, hc⟩ := toDigits_eq_cons n
  rw [hds]
  intro h
  obtain ⟨rfl, -⟩ := List.cons.inj h
  exact absurd hc (by decide)

theorem numeral_append_inj {m n : Int} (hrest : Stops rest) (hrest' : Stops rest')
    (h : numeral m ++ rest = numeral n ++ rest') : m = n ∧ rest = rest' := by
  cases m with
  | ofNat m =>
    cases n with
    | ofNat n =>
      obtain ⟨rfl, htail⟩ := toDigits_append_inj hrest hrest' h
      exact ⟨rfl, htail⟩
    | negSucc n => exact absurd h (toDigits_ne_minus m)
  | negSucc m =>
    cases n with
    | ofNat n => exact absurd h.symm (toDigits_ne_minus n)
    | negSucc n =>
      obtain ⟨hmn, htail⟩ := toDigits_append_inj hrest hrest' (List.cons.inj h).2
      obtain rfl := Nat.succ.inj hmn
      exact ⟨rfl, htail⟩

-- ---------------------------------------------------------------------------
-- Lists and objects
-- ---------------------------------------------------------------------------

def linesOf (level : Nat) : List (List Char) → List Char
  | [] => []
  | [text] => lineBreak level ++ text
  | text :: texts => lineBreak level ++ text ++ ',' :: linesOf level texts

def bracketText (opening closing : Char) (level : Nat) (texts : List (List Char)) : List Char :=
  if texts = [] then [opening, closing]
  else opening :: (linesOf (level + 1) texts ++ (lineBreak level ++ [closing]))

def memberText (level : Nat) (m : String × Json) : List Char :=
  quote m.1 ++ (':' :: ' ' :: m.2.chars level)

theorem linesOf_cons (level : Nat) (text : List Char) (texts : List (List Char)) :
    linesOf level (text :: texts) =
      lineBreak level ++ (text ++ if texts = [] then [] else ',' :: linesOf level texts) := by
  cases texts <;> simp [linesOf]

theorem itemChars_eq (level : Nat) (items : List Json) :
    itemChars level items = linesOf level (items.map (chars level)) := by
  induction items with
  | nil => rfl
  | cons item items ih =>
    rw [List.map_cons, linesOf_cons, ← ih]
    cases items <;> simp [itemChars]

theorem memberChars_eq (level : Nat) (members : List (String × Json)) :
    memberChars level members = linesOf level (members.map (memberText level)) := by
  induction members with
  | nil => rfl
  | cons m members ih =>
    rw [List.map_cons, linesOf_cons, ← ih]
    cases members <;> simp [memberChars, memberText]

theorem chars_array (level : Nat) (items : List Json) :
    (array items).chars level = bracketText '[' ']' level (items.map (chars (level + 1))) := by
  cases items with
  | nil => rfl
  | cons item items => simp [chars, bracketText, itemChars_eq]

theorem chars_object (level : Nat) (members : List (String × Json)) :
    (object members).chars level =
      bracketText '\x7b' '\x7d' level (members.map (memberText (level + 1))) := by
  cases members with
  | nil => rfl
  | cons m members => simp [chars, bracketText, memberChars_eq]

section
variable {α : Type} {text : α → List Char} {as as' : List α}

/-- The text of an element tells which element it is, and where it is over. -/
def SelfDelimiting (text : α → List Char) (a : α) : Prop :=
  ∀ a' rest rest', Stops rest → Stops rest' → text a ++ rest = text a' ++ rest' →
    a = a' ∧ rest = rest'

/-- Elements that are over where their texts are can be told apart on lines. -/
theorem linesOf_append_inj {level outer : Nat} (htext : ∀ a ∈ as, SelfDelimiting text a)
    (hne : as ≠ []) (hne' : as' ≠ [])
    (h : linesOf level (as.map text) ++ (lineBreak outer ++ rest) =
      linesOf level (as'.map text) ++ (lineBreak outer ++ rest')) :
    as = as' ∧ rest = rest' := by
  induction as generalizing as' with
  | nil => exact absurd rfl hne
  | cons a as ih =>
    obtain ⟨a', as', rfl⟩ := List.exists_cons_of_ne_nil hne'
    rw [List.forall_mem_cons] at htext
    rw [List.map_cons, List.map_cons, linesOf_cons, linesOf_cons] at h
    simp only [List.append_assoc, List.append_cancel_left_eq, List.map_eq_nil_iff] at h
    -- after the first element comes a comma or the line of the closing bracket
    have hstops (bs : List α) (rest : List Char) :
        Stops ((if bs = [] then [] else ',' :: linesOf level (bs.map text)) ++
          (lineBreak outer ++ rest)) := by
      split <;> exact stops_cons (by decide)
    obtain ⟨rfl, htail⟩ := htext.1 a' _ _ (hstops as rest) (hstops as' rest') h
    by_cases has : as = [] <;> by_cases has' : as' = []
    · simp only [has, has', if_true, List.nil_append, List.append_cancel_left_eq] at htail
      exact ⟨by rw [has, has'], htail⟩
    · simp only [has, has', if_true, if_false, List.nil_append] at htail
      cases htail
    · simp only [has, has', if_true, if_false, List.nil_append] at htail
      cases htail
    · simp only [has, has', if_false, List.cons_append, List.cons.injEq, true_and] at htail
      obtain ⟨rfl, hrest⟩ := ih htext.2 has has' htail
      exact ⟨rfl, hrest⟩

theorem bracketText_append_inj {opening closing : Char} {level : Nat}
    (htext : ∀ a ∈ as, SelfDelimiting text a) (hclosing : closing ≠ '\n')
    (h : bracketText opening closing level (as.map text) ++ rest =
      bracketText opening closing level (as'.map text) ++ rest') :
    as = as' ∧ rest = rest' := by
  -- empty brackets close where the first line would begin
  have hempty (bs : List α) (hbs : bs ≠ []) (tail tail' : List Char) :
      closing :: tail ≠ linesOf (level + 1) (bs.map text) ++ tail' := by
    obtain ⟨b, bs, rfl⟩ := List.exists_cons_of_ne_nil hbs
    rw [List.map_cons, linesOf_cons]
    exact fun h => hclosing (List.cons.inj h).1
  simp only [bracketText, List.map_eq_nil_iff] at h
  by_cases has : as = [] <;> by_cases has' : as' = []
  · simp only [has, has', if_true, List.append_cancel_left_eq] at h
    exact ⟨by rw [has, has'], h⟩
  · simp only [has, has', if_true, if_false, List.cons_append, List.append_assoc] at h
    exact absurd (List.cons.inj h).2 (hempty as' has' _ _)
  · simp only [has, has', if_true, if_false, List.cons_append, List.append_assoc] at h
    exact absurd (List.cons.inj h).2.symm (hempty as has _ _)
  · simp only [has, has', if_false, List.cons_append, List.append_assoc, List.cons.injEq,
      true_and] at h
    obtain ⟨rfl, htail⟩ := linesOf_append_inj htext has has' h
    exact ⟨rfl, (List.cons.inj htail).2⟩

end

-- ---------------------------------------------------------------------------
-- Values
-- ---------------------------------------------------------------------------

inductive Kind where
  | null
  | bool (b : Bool)
  | number
  | string
  | array
  | object

def kind : Json → Kind
  | .null => .null
  | .bool b => .bool b
  | .number _ => .number
  | .string _ => .string
  | .array _ => .array
  | .object _ => .object

def Kind.ofHead (c : Char) : Kind :=
  if c = 'n' then .null
  else if c = 't' then .bool true
  else if c = 'f' then .bool false
  else if c = '"' then .string
  else if c = '[' then .array
  else if c = '\x7b' then .object
  else .number

theorem Kind.ofHead_digit {c : Char} (h : c.isDigit) : ofHead c = .number := by
  have hne : c ≠ 'n' ∧ c ≠ 't' ∧ c ≠ 'f' ∧ c ≠ '"' ∧ c ≠ '[' ∧ c ≠ '\x7b' := by
    refine ⟨?_, ?_, ?_, ?_, ?_, ?_⟩ <;> rintro rfl <;> exact absurd h (by decide)
  simp [ofHead, hne]

theorem exists_head_number (n : Int) :
    ∃ c cs, numeral n = c :: cs ∧ Kind.ofHead c = .number := by
  cases n with
  | ofNat n =>
    obtain ⟨c, ds, hds, hc⟩ := toDigits_eq_cons n
    exact ⟨c, ds, hds, Kind.ofHead_digit hc⟩
  | negSucc n => exact ⟨'-', _, rfl, rfl⟩

theorem exists_head_bracketText (opening closing : Char) (level : Nat)
    (texts : List (List Char)) : ∃ cs, bracketText opening closing level texts = opening :: cs := by
  unfold bracketText
  split <;> exact ⟨_, rfl⟩

theorem exists_head (j : Json) (level : Nat) :
    ∃ c cs, j.chars level = c :: cs ∧ Kind.ofHead c = j.kind := by
  cases j with
  | null => exact ⟨'n', _, rfl, rfl⟩
  | bool b =>
    cases b with
    | true => exact ⟨'t', _, rfl, rfl⟩
    | false => exact ⟨'f', _, rfl, rfl⟩
  | number n =>
    obtain ⟨c, cs, hn, hc⟩ := exists_head_number n
    exact ⟨c, cs, by rw [chars, hn], hc⟩
  | string s => exact ⟨'"', _, by rw [chars]; rfl, rfl⟩
  | array items =>
    obtain ⟨cs, hcs⟩ := exists_head_bracketText '[' ']' level (items.map (chars (level + 1)))
    exact ⟨'[', cs, by rw [chars_array, hcs], rfl⟩
  | object members =>
    obtain ⟨cs, hcs⟩ :=
      exists_head_bracketText '\x7b' '\x7d' level (members.map (memberText (level + 1)))
    exact ⟨'\x7b', cs, by rw [chars_object, hcs], rfl⟩

theorem kind_eq_of_append {j j' : Json} {level : Nat}
    (h : j.chars level ++ rest = j'.chars level ++ rest') : j.kind = j'.kind := by
  obtain ⟨c, cs, hj, hc⟩ := j.exists_head level
  obtain ⟨c', cs', hj', hc'⟩ := j'.exists_head level
  rw [hj, hj', List.cons_append, List.cons_append] at h
  rw [← hc, ← hc', (List.cons.inj h).1]

theorem selfDelimiting_memberText {level : Nat} {m : String × Json}
    (hvalue : SelfDelimiting (chars level) m.2) : SelfDelimiting (memberText level) m := by
  rintro ⟨key', value'⟩ rest rest' hrest hrest' h
  simp only [memberText, List.append_assoc, List.cons_append] at h
  obtain ⟨hkey, htail⟩ := quote_append_inj h
  simp only [List.cons.injEq, true_and] at htail
  obtain ⟨hvalue, hend⟩ := hvalue value' rest rest' hrest hrest' htail
  exact ⟨Prod.ext hkey hvalue, hend⟩

/-- A value is over where its text is. -/
theorem selfDelimiting_chars (level : Nat) (j : Json) : SelfDelimiting (chars level) j := by
  intro j' rest rest' hrest hrest' h
  have hkind := kind_eq_of_append h
  -- the kinds agree, so the other pairs of constructors do not arise
  match j, j', hkind with
  | .null, .null, _ => exact ⟨rfl, List.append_cancel_left h⟩
  | .bool b, .bool _, rfl => exact ⟨rfl, List.append_cancel_left h⟩
  | .number n, .number n', _ =>
    rw [chars, chars] at h
    obtain ⟨rfl, htail⟩ := numeral_append_inj hrest hrest' h
    exact ⟨rfl, htail⟩
  | .string s, .string s', _ =>
    rw [chars, chars] at h
    obtain ⟨rfl, htail⟩ := quote_append_inj h
    exact ⟨rfl, htail⟩
  | .array items, .array items', _ =>
    have hitems : ∀ i ∈ items, SelfDelimiting (chars (level + 1)) i :=
      fun i hi => selfDelimiting_chars (level + 1) i
    rw [chars_array, chars_array] at h
    obtain ⟨rfl, htail⟩ := bracketText_append_inj hitems (by decide) h
    exact ⟨rfl, htail⟩
  | .object members, .object members', _ =>
    have hmembers : ∀ m ∈ members, SelfDelimiting (memberText (level + 1)) m := by
      rintro ⟨key, value⟩ hm
      exact selfDelimiting_memberText (selfDelimiting_chars (level + 1) value)
    rw [chars_object, chars_object] at h
    obtain ⟨rfl, htail⟩ := bracketText_append_inj hmembers (by decide) h
    exact ⟨rfl, htail⟩
termination_by j
decreasing_by
  · simp_wf
    have := List.sizeOf_lt_of_mem hi
    omega
  · simp_wf
    have := List.sizeOf_lt_of_mem hm
    simp only [Prod.mk.sizeOf_spec] at this
    omega

theorem pretty_inj {j j' : Json} : j.pretty = j'.pretty ↔ j = j' := by
  refine ⟨fun h => ?_, congrArg pretty⟩
  have hchars : j.chars 0 ++ [] = j'.chars 0 ++ [] := by
    simpa [pretty, String.ofList_inj] using h
  exact (selfDelimiting_chars 0 j j' [] [] stops_nil stops_nil hchars).1

end RestQuery.Json

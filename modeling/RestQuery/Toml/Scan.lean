/-!
# Scanning

A scan reads a prefix of a text and leaves the rest, or refuses. `x <|> y` is
`y` where `x` refuses. `many p` reads as long as `p` does and never refuses.
-/

namespace RestQuery.Toml

abbrev Scan := StateT (List Char) Option

namespace Scan

def satisfy (p : Char → Bool) : Scan Char
  | [] => none
  | c :: cs => if p c then some (c, cs) else none

def char (c : Char) : Scan Unit := do
  let _ ← satisfy (· = c)

def word (text : List Char) : Scan Unit := fun cs => (text.isPrefixOf? cs).map ((), ·)

def span (p : Char → Bool) : Scan (List Char) := fun cs => some (cs.takeWhile p, cs.dropWhile p)

def span1 (p : Char → Bool) : Scan (List Char) := do
  let c ← satisfy p
  return c :: (← span p)

def atEnd : Scan Unit
  | [] => some ((), [])
  | _ :: _ => none

/-- A `p` that reads nothing ends the repetition too. -/
def many (p : Scan α) (cs : List Char) : Option (List α × List Char) :=
  match p cs with
  | none => some ([], cs)
  | some (a, rest) =>
    if rest.length < cs.length then
      match many p rest with
      | none => none
      | some (as, rest) => some (a :: as, rest)
    else some ([], cs)
termination_by cs.length

def optional (p : Scan α) : Scan (Option α) := (some <$> p) <|> pure none

def separated (separator : Scan Unit) (p : Scan α) : Scan (List α) := do
  let a ← p
  return a :: (← many (separator *> p))

def times : Nat → Scan α → Scan (List α)
  | 0, _ => pure []
  | n + 1, p => do
    let a ← p
    return a :: (← times n p)

def filterMap (f : α → Option β) (p : Scan α) : Scan β := do
  match f (← p) with
  | some b => return b
  | none => failure

theorem run_pure (a : α) (cs : List Char) : (pure a : Scan α) cs = some (a, cs) := rfl

theorem run_bind (p : Scan α) (f : α → Scan β) (cs : List Char) :
    (p >>= f) cs = (p cs).bind fun r => f r.1 r.2 := by
  show StateT.bind p f cs = _
  unfold StateT.bind
  cases p cs <;> rfl

theorem run_map (f : α → β) (p : Scan α) (cs : List Char) :
    (f <$> p) cs = (p cs).map fun r => (f r.1, r.2) := by
  show StateT.map f p cs = _
  unfold StateT.map
  cases p cs <;> rfl

theorem run_orElse (p q : Scan α) (cs : List Char) : (p <|> q) cs = (p cs).or (q cs) := by
  show (p cs <|> q cs) = _
  cases p cs <;> rfl

theorem many_of_none {p : Scan α} {cs : List Char} (h : p cs = none) :
    many p cs = some ([], cs) := by
  unfold many
  simp [h]

theorem many_of_some {p : Scan α} {cs rest : List Char} {a : α} (h : p cs = some (a, rest))
    (hl : rest.length < cs.length) :
    many p cs = (many p rest).map fun r => (a :: r.1, r.2) := by
  conv => lhs; unfold many
  simp only [h, hl, if_true]
  cases many p rest <;> rfl

@[simp] theorem satisfy_cons (p : Char → Bool) (c : Char) (cs : List Char) :
    satisfy p (c :: cs) = if p c then some (c, cs) else none := rfl

end Scan

def isBlank (c : Char) : Bool := c = ' ' || c = '\t'

def blanks : Scan Unit := do
  let _ ← Scan.span isBlank

def newline : Scan Unit := Scan.char '\n' <|> Scan.word ['\r', '\n']

/-- The characters that a comment may hold: all but controls, the tab apart. -/
def isCommentChar (c : Char) : Bool := c = '\t' || (0x20 ≤ c.toNat && c.toNat ≠ 0x7F)

def comment : Scan Unit := do
  Scan.char '#'
  let _ ← Scan.span isCommentChar

def lineEnd : Scan Unit := newline <|> Scan.atEnd

def trailing : Scan Unit := do
  blanks
  let _ ← Scan.optional comment
  lineEnd

end RestQuery.Toml

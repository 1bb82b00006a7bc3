import RestQuery.Toml.Number

/-!
# Strings in TOML

Four forms: between `"` with escapes or between `'` without, on one line or,
with the delimiter written three times, on several. A line break right after
an opening triple delimiter is dropped, and one or two more quotes may stand
before a closing one. Line breaks are read as line feeds.
-/

namespace RestQuery.Toml

/-- The characters that stand for themselves in a string between `q`. The
backslash is one of them only where there are no escapes. -/
def isPlain (q c : Char) : Bool :=
  (c = '\t' || (0x20 ≤ c.toNat && c.toNat ≠ 0x7F)) && c ≠ q && (q = '\'' || c ≠ '\\')

def shortEscapes : List (Char × Char) :=
  [('b', '\x08'), ('t', '\t'), ('n', '\n'), ('f', '\x0C'), ('r', '\r'), ('"', '"'), ('\\', '\\')]

/-- The character of a code point; surrogates and numbers past the range have none. -/
def charOf? (n : Nat) : Option Char := if n.isValidChar then some (Char.ofNat n) else none

def numberedEscape (letter : Char) (width : Nat) : Scan Char := do
  Scan.char letter
  Scan.filterMap (fun ds => charOf? (Text.ofDigits 16 ds)) (Scan.times width (digit 16))

def escape : Scan Char := do
  Scan.char '\\'
  Scan.filterMap (fun c => shortEscapes.lookup c) (Scan.satisfy fun _ => true) <|>
    numberedEscape 'u' 4 <|> numberedEscape 'U' 8

/-- A backslash at the end of a line: it and all blank space after it are nothing. -/
def continuation : Scan Unit := do
  Scan.char '\\'
  blanks
  newline
  let _ ← Scan.span fun c => isBlank c || c = '\n'
  let _ ← Scan.many (Scan.word ['\r', '\n'] *> Scan.span fun c => isBlank c || c = '\n')

def basicPiece : Scan (List Char) :=
  Scan.span1 (isPlain '"') <|> (do return [← escape])

/-- A quote of a multi-line string that does not begin the closing delimiter. -/
def innerQuote (q : Char) : Scan (List Char) := fun cs =>
  if (List.replicate 3 q).isPrefixOf cs then none else (Scan.char q *> pure [q]) cs

def multilinePiece (q : Char) : Scan (List Char) :=
  Scan.span1 (isPlain q) <|> (newline *> pure ['\n']) <|> innerQuote q <|>
    (if q = '"' then (continuation *> pure []) <|> (do return [← escape]) else failure)

/-- The closing delimiter, after up to two quotes that belong to the string. -/
def closing (q : Char) : Scan (List Char) :=
  close 2 <|> close 1 <|> close 0
where
  close (extra : Nat) : Scan (List Char) :=
    Scan.word (List.replicate (extra + 3) q) *> pure (List.replicate extra q)

def multiline (q : Char) : Scan (List Char) := do
  Scan.word (List.replicate 3 q)
  let _ ← Scan.optional newline
  let pieces ← Scan.many (multilinePiece q)
  return pieces.flatten ++ (← closing q)

def basic : Scan (List Char) := do
  Scan.char '"'
  let pieces ← Scan.many basicPiece
  Scan.char '"'
  return pieces.flatten

def literal : Scan (List Char) := do
  Scan.char '\''
  let cs ← Scan.span (isPlain '\'')
  Scan.char '\''
  return cs

def text : Scan String :=
  String.ofList <$> (multiline '"' <|> basic <|> multiline '\'' <|> literal)

end RestQuery.Toml

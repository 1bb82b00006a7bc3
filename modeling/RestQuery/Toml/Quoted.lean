import RestQuery.Toml.Text

/-!
# Writing strings in TOML

A string is written in the plainest form that can hold it: without escapes if
there is such a form, on one line if it has no line feed. In `"` forms
controls, backslashes and quotes are escaped, but a multi-line form lets two
quotes in a row stand.
-/

namespace RestQuery.Toml

/-- The length of the longest run of `q`, when `current` of it stand before
the text and `best` is the longest so far. -/
def longestRun (q : Char) (current best : Nat) : List Char → Nat
  | [] => best
  | c :: cs =>
    if c = q then longestRun q (current + 1) (max best (current + 1)) cs
    else longestRun q 0 best cs

/-- A control character other than the tab and the line feed. -/
def isRareControl (c : Char) : Bool :=
  (c.toNat < 0x20 || c.toNat = 0x7F) && c ≠ '\t' && c ≠ '\n'

inductive Form where
  | basic
  | literal
  | multilineBasic
  | multilineLiteral
  deriving DecidableEq, Repr

def Form.of (cs : List Char) : Form :=
  let rare := cs.any isRareControl
  let escapes := rare || cs.contains '\\'
  let broken := cs.contains '\n'
  let singles := longestRun '\'' 0 0 cs
  let doubles := longestRun '"' 0 0 cs
  if !escapes && doubles = 0 && !broken then .basic
  else if !rare && singles = 0 && !broken then .literal
  else if !escapes && doubles ≤ 2 then .multilineBasic
  else if !rare && singles ≤ 2 then .multilineLiteral
  else if broken then .multilineBasic
  else .basic

def upperHexDigit (n : Nat) : Char := (Nat.digitChar n).toUpper

/-- One character of a `"` form, quotes apart. A line feed stands for itself. -/
def escaped (c : Char) : List Char :=
  match c with
  | '\x08' => ['\\', 'b']
  | '\t' => ['\\', 't']
  | '\x0C' => ['\\', 'f']
  | '\r' => ['\\', 'r']
  | '\\' => ['\\', '\\']
  | _ =>
    if isRareControl c then
      ['\\', 'u', '0', '0', upperHexDigit (c.toNat / 16), upperHexDigit (c.toNat % 16)]
    else [c]

def basicBody (cs : List Char) : List Char :=
  cs.flatMap fun c => if c = '"' then ['\\', '"'] else escaped c

/-- The body after `run` quotes in a row, of which a third is escaped. -/
def multilineBasicBody (run : Nat) : List Char → List Char
  | [] => []
  | c :: cs =>
    if c = '"' then
      if run = 2 then '\\' :: '"' :: multilineBasicBody 0 cs
      else '"' :: multilineBasicBody (run + 1) cs
    else escaped c ++ multilineBasicBody 0 cs

/-- A string that has a line feed begins on a line of its own. -/
def multilineStart (q : Char) (cs : List Char) : List Char :=
  List.replicate 3 q ++ if cs.contains '\n' then ['\n'] else []

def quoted (s : String) : List Char :=
  let cs := s.toList
  match Form.of cs with
  | .basic => '"' :: basicBody cs ++ ['"']
  | .literal => '\'' :: cs ++ ['\'']
  | .multilineBasic => multilineStart '"' cs ++ multilineBasicBody 0 cs ++ ['"', '"', '"']
  | .multilineLiteral => multilineStart '\'' cs ++ cs ++ ['\'', '\'', '\'']

end RestQuery.Toml

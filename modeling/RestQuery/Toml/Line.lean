import RestQuery.Toml.Document
import RestQuery.Toml.Quoted

/-!
# Writing TOML documents

What is written is a sequence of lines: a key with a number, a string or a list
of strings, or the header of an element of an array of tables. An empty line
stands before each header unless it is the first line.
-/

namespace RestQuery.Toml

inductive Datum where
  | count (n : Nat)
  | text (s : String)
  | texts (list : List String)
  deriving DecidableEq, Repr

inductive Line where
  | entry (key : String) (value : Datum)
  | element (path : List String)
  deriving DecidableEq, Repr

/-- A list of two strings or more has a line for each. -/
def Datum.chars : Datum → List Char
  | .count n => Nat.toDigits 10 n
  | .text s => quoted s
  | .texts [] => ['[', ']']
  | .texts [s] => '[' :: quoted s ++ [']']
  | .texts list =>
    "[\n".toList ++ list.flatMap (fun s => "    ".toList ++ quoted s ++ ",\n".toList) ++ [']']

namespace Line

def chars : Line → List Char
  | .entry key value => key.toList ++ " = ".toList ++ value.chars ++ ['\n']
  | .element path => "[[".toList ++ (".".intercalate path).toList ++ "]]\n".toList

def isHeader : Line → Bool
  | .entry .. => false
  | .element _ => true

def write : List Line → List Char
  | [] => []
  | first :: rest =>
    first.chars ++ rest.flatMap fun line => if line.isHeader then '\n' :: line.chars else line.chars

end Line

end RestQuery.Toml

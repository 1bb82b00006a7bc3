/-!
# JSON

JSON values, and the layout in which they are printed: two spaces for each
level, one line for each element, and no line break in an empty list or object.
Numbers are integers. Members keep their order.
-/

namespace RestQuery

inductive Json where
  | null
  | bool (b : Bool)
  | number (n : Int)
  | string (s : String)
  | array (items : List Json)
  | object (members : List (String × Json))

namespace Json

def shortEscapes : List (Char × Char) :=
  [('"', '"'), ('\\', '\\'), ('\x08', 'b'), ('\x0C', 'f'), ('\n', 'n'), ('\r', 'r'), ('\t', 't')]

/-- One character of a string. Control characters without a short escape are
written by their number. -/
def escape (c : Char) : List Char :=
  match shortEscapes.lookup c with
  | some letter => ['\\', letter]
  | none =>
    if c.toNat < 0x20 then
      ['\\', 'u', '0', '0', Nat.digitChar (c.toNat / 16), Nat.digitChar (c.toNat % 16)]
    else [c]

def quote (s : String) : List Char := '"' :: s.toList.flatMap escape ++ ['"']

def numeral : Int → List Char
  | .ofNat n => Nat.toDigits 10 n
  | .negSucc n => '-' :: Nat.toDigits 10 (n + 1)

def lineBreak (level : Nat) : List Char := '\n' :: List.replicate (2 * level) ' '

mutual
/-- The text of a value whose opening bracket stands on a line of the level. -/
def chars (level : Nat) : Json → List Char
  | .null => "null".toList
  | .bool true => "true".toList
  | .bool false => "false".toList
  | .number n => numeral n
  | .string s => quote s
  | .array [] => "[]".toList
  | .array items => '[' :: itemChars (level + 1) items ++ lineBreak level ++ [']']
  | .object [] => "\x7b\x7d".toList
  | .object members => '\x7b' :: memberChars (level + 1) members ++ lineBreak level ++ ['\x7d']
def itemChars (level : Nat) : List Json → List Char
  | [] => []
  | [item] => lineBreak level ++ item.chars level
  | item :: rest => lineBreak level ++ item.chars level ++ ',' :: itemChars level rest
def memberChars (level : Nat) : List (String × Json) → List Char
  | [] => []
  | [(key, value)] => lineBreak level ++ quote key ++ ':' :: ' ' :: value.chars level
  | (key, value) :: rest =>
    lineBreak level ++ quote key ++ ':' :: ' ' :: value.chars level ++ ',' :: memberChars level rest
end

def pretty (j : Json) : String := .ofList (j.chars 0)

def strings (texts : List String) : Json := .array (texts.map .string)

def count (n : UInt64) : Json := .number n.toNat

def member? (key : String) (value? : Option Json) : List (String × Json) :=
  value?.toList.map (key, ·)

end Json

end RestQuery

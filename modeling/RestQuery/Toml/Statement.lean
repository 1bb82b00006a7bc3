import RestQuery.Toml.Moment
import RestQuery.Toml.Node
import RestQuery.Toml.Text

/-!
# The statements of a TOML document

A statement gives a key its value, opens a table or opens one more element of
an array of tables. Keys are paths: parts with dots between them.
-/

namespace RestQuery.Toml

/-- A path and the key at its end. -/
abbrev Key := List String × String

inductive Statement where
  | entry (key : Key) (value : Node)
  | header (key : Key)
  | element (key : Key)

def isBareChar (c : Char) : Bool := c.isAlphanum || c = '_' || c = '-'

def keyPart : Scan String :=
  String.ofList <$> (Scan.span1 isBareChar <|> basic <|> literal)

/-- Keys have fewer parts than this, and arrays and inline tables nest less deep. -/
def depthLimit : Nat := 80

def Key.ofParts? (parts : List String) : Option Key :=
  if parts.length < depthLimit then parts.getLast?.map (parts.dropLast, ·) else none

def key : Scan Key :=
  Scan.filterMap Key.ofParts?
    (Scan.separated (Scan.char '.') (blanks *> keyPart <* blanks))

/-- White space and comments between the elements of an array. -/
def gap : Scan Unit := do
  let _ ← Scan.many ((Scan.span1 isBlank *> pure ()) <|> newline <|> (comment *> newline))

def scalar : Scan Scalar :=
  .text <$> text <|>
    (moment *> pure .other) <|> (float *> pure .other) <|> .integer <$> integer <|>
    (Scan.word "true".toList *> pure .other) <|> (Scan.word "false".toList *> pure .other)

/-- An array, given how to read its items. The last may be followed by a comma. -/
def array (item : Scan Node) : Scan Node := do
  Scan.char '['
  gap
  let items ← Scan.optional (Scan.separated (Scan.char ',' *> gap) (item <* gap))
  if items.isSome then
    let _ ← Scan.optional (Scan.char ',' *> gap)
  Scan.char ']'
  return .array (items.getD [])

def binding (value : Scan Node) : Scan (Key × Node) := do
  let k ← key
  Scan.char '='
  blanks
  return (k, ← value)

def Table.ofBindings? (bindings : List (Key × Node)) : Option Table :=
  bindings.foldlM (fun t b => t.define? b.1.1 b.1.2 b.2) []

/-- An inline table stands on one line and has no comma at its end. -/
def inlineTable (value : Scan Node) : Scan Node := do
  Scan.char '\x7b'
  blanks
  let bindings ← Scan.optional (Scan.separated (Scan.char ',') (binding value <* blanks))
  Scan.char '\x7d'
  Scan.filterMap (fun bs => (Table.ofBindings? bs).map (.table .inline)) (pure (bindings.getD []))

/-- A value that nests at most `depth` arrays and inline tables. -/
def value : (depth : Nat) → Scan Node
  | 0 => .scalar <$> scalar
  | depth + 1 => .scalar <$> scalar <|> array (value depth) <|> inlineTable (value depth)

def entry : Scan Statement := do
  let (k, v) ← binding (value (depthLimit - 1))
  return .entry k v

def element : Scan Statement := do
  Scan.word ['[', '[']
  let k ← key
  Scan.word [']', ']']
  return .element k

def header : Scan Statement := do
  Scan.char '['
  let k ← key
  Scan.char ']'
  return .header k

/-- One line, or several where the value has several; most lines hold no
statement or one. -/
def line : Scan (Option Statement) := do
  blanks
  (some <$> (element <|> header <|> entry) <* trailing) <|>
    (comment *> lineEnd *> pure none) <|> (newline *> pure none)

def statements : Scan (List Statement) := do
  let lines ← Scan.many line
  blanks
  Scan.atEnd
  return lines.filterMap id

end RestQuery.Toml

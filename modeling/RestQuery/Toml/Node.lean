/-!
# The tree of a TOML document

A node is a scalar, an array, a table or an array of tables. How a table came
to be decides what may still be added to it: what an inline table holds is
final, a table that a header names is never named again, and dotted keys do
not reach into the tables of headers.
-/

namespace RestQuery.Toml

/-- Booleans, floats and moments are not told apart: nothing reads them. -/
inductive Scalar where
  | text (s : String)
  | integer (n : Int)
  | other
  deriving DecidableEq, Repr

inductive Origin where
  /-- Written with braces. -/
  | inline
  /-- Named by a header. -/
  | header
  /-- On the way to a table that a header names. -/
  | implied
  /-- On the way to a dotted key. -/
  | dotted
  deriving DecidableEq, Repr

inductive Node where
  | scalar (s : Scalar)
  | array (items : List Node)
  | table (origin : Origin) (entries : List (String × Node))
  | tables (elements : List (List (String × Node)))

abbrev Table := List (String × Node)

namespace Table

/-- Changes the entry of a key, or makes it; `f` may refuse either. -/
def alter? (key : String) (f : Option Node → Option Node) : Table → Option Table
  | [] => (f none).map fun n => [(key, n)]
  | e :: t =>
    if e.1 = key then (f (some e.2)).map fun n => (key, n) :: t
    else (alter? key f t).map (e :: ·)

/-- Changes the table that a path leads to. Tables that are missing on the way
are made with the origin `via`; an array of tables leads on to its last. -/
def within? (via : Origin) (f : Origin → Table → Option Table) :
    List String → Origin → Table → Option Table
  | [], origin, t => f origin t
  | key :: path, _, t =>
    t.alter? key fun
      | none => (within? via f path via []).map (.table via)
      | some (.table origin t) =>
        if origin = .inline ∨ via = .dotted ∧ origin = .header then none
        else (within? via f path origin t).map (.table origin)
      | some (.tables elements) =>
        match elements.getLast? with
        | some last =>
          (within? via f path .header last).map fun t => .tables (elements.dropLast ++ [t])
        | none => none
      | some _ => none

/-- Gives a new key its value. The path before the key may only lead through
tables of dotted keys to the last of them. -/
def define? (path : List String) (key : String) (value : Node) (t : Table) : Option Table :=
  t.within? .dotted (fun origin t =>
    if path ≠ [] ∧ origin ≠ .dotted then none
    else t.alter? key fun
      | none => some value
      | some _ => none) path .header

/-- Opens the table of a header. It may have been implied before. -/
def openTable? (path : List String) (key : String) (t : Table) : Option Table :=
  t.within? .implied (fun _ t => t.alter? key fun
    | none => some (.table .header [])
    | some (.table .implied t) => some (.table .header t)
    | _ => none) path .header

def openElement? (path : List String) (key : String) (t : Table) : Option Table :=
  t.within? .implied (fun _ t => t.alter? key fun
    | none => some (.tables [[]])
    | some (.tables elements) => some (.tables (elements ++ [[]]))
    | _ => none) path .header

end Table

namespace Node

def text? : Node → Option String
  | .scalar (.text s) => some s
  | _ => none

def items? : Node → Option (List Node)
  | .array items => some items
  | .tables elements => some (elements.map (.table .header))
  | _ => none

def isEmpty : Node → Bool
  | .array items => items.isEmpty
  | .table _ entries => entries.isEmpty
  | .tables elements => elements.isEmpty
  | .scalar _ => false

/-- A record is a table, or an array of its parts in their order. `part?` is
`none` of any other node, and `some none` of a record without the part. -/
def part? (name : String) (place : Nat) : Node → Option (Option Node)
  | .table _ entries => some (entries.lookup name)
  | .array items => some items[place]?
  | _ => none

def required? (n : Node) (name : String) (place : Nat) : Option Node :=
  (n.part? name place).join

/-- A part that is a list, empty if it is not there. -/
def list? (n : Node) (name : String) (place : Nat) (read? : Node → Option α) : Option (List α) := do
  match ← n.part? name place with
  | none => return []
  | some list => (← list.items?).mapM read?

end Node

end RestQuery.Toml

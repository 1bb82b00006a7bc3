import RestQuery.Toml.Statement

/-!
# TOML documents

A document is its statements carried out one after another: an entry goes into
the table that was opened last.
-/

namespace RestQuery.Toml

/-- The tree so far, and the path of the table that was opened last. -/
structure Document where
  root : Table := []
  current : List String := []

namespace Document

def add? (d : Document) : Statement → Option Document
  | .entry key value =>
    (d.root.within? .implied (fun _ t => t.define? key.1 key.2 value) d.current .header).map
      fun root => { d with root }
  | .header key =>
    (d.root.openTable? key.1 key.2).map fun root => ⟨root, key.1 ++ [key.2]⟩
  | .element key =>
    (d.root.openElement? key.1 key.2).map fun root => ⟨root, key.1 ++ [key.2]⟩

def ofStatements? (statements : List Statement) : Option Document :=
  statements.foldlM add? {}

/-- A byte order mark before the text does not belong to it. -/
def dropByteOrderMark : List Char → List Char
  | '\uFEFF' :: cs => cs
  | cs => cs

def parse? (source : String) : Option Document :=
  match statements (dropByteOrderMark source.toList) with
  | some (statements, _) => ofStatements? statements
  | none => none

end Document

end RestQuery.Toml

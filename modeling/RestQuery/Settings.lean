import RestQuery.Files
import RestQuery.Query.Reading
import RestQuery.Schema.Toml

/-!
# Settings

A deployment keeps its settings and its schema in files under one directory,
the root. Settings that are not given have standard values, and so has a root
without a settings file.
-/

namespace RestQuery

structure Settings where
  root : Path
  /-- The window size for requests that ask for a window without one. -/
  defaultLimit : UInt64 := standardLimit
  /-- The schema file, seen from the root. -/
  schemaFile : String := "schema.toml"
  deriving DecidableEq, Repr

namespace Settings

def path (s : Settings) : Path := s.root.join "config.toml"

def schemaPath (s : Settings) : Path := s.root.join s.schemaFile

def countOfNode? : Toml.Node → Option UInt64
  | .scalar (.integer n) => if 0 ≤ n then some (.ofNat n.toNat) else none
  | _ => none

/-- A setting that is not in the document has its standard value. -/
def ofDocument? (root : Path) (d : Toml.Document) : Option Settings := do
  let standard : Settings := { root }
  let defaultLimit ←
    match d.root.lookup "default_limit" with
    | some n => countOfNode? n
    | none => some standard.defaultLimit
  let schemaFile ←
    match d.root.lookup "schema_file" with
    | some n => n.text?
    | none => some standard.schemaFile
  return { root, defaultLimit, schemaFile }

def ofToml (root : Path) (source : String) : Except Error Settings :=
  match (Toml.Document.parse? source).bind (ofDocument? root) with
  | none => .error (.settings .unreadable)
  | some s => if s.defaultLimit = 0 then .error (.settings .zeroLimit) else .ok s

def lines (s : Settings) : List Toml.Line :=
  [.entry "default_limit" (.count s.defaultLimit.toNat), .entry "schema_file" (.text s.schemaFile)]

/-- A limit that is no TOML integer cannot be written. -/
def toToml (s : Settings) : Except Error String :=
  if s.defaultLimit.toNat < Toml.integerBound then .ok (.ofList (Toml.Line.write s.lines))
  else .error (.settings .unwritableLimit)

end Settings

section

variable {m : Type → Type} [Monad m] [FileAccess m]

def Settings.load (root : Path) : Action m Settings := do
  let standard : Settings := { root }
  if ← Action.fileExists standard.path then
    Action.ofExcept (Settings.ofToml root (← Action.readText standard.path))
  else
    return standard

/-- The root is made before the settings are written out. -/
def Settings.save (s : Settings) : Action m Unit := do
  Action.makeDirs s.root
  let text ← Action.ofExcept s.toToml
  Action.writeText s.path text

def Schema.load (p : Path) : Action m Schema := do
  if ← Action.fileExists p then
    Action.ofExcept (Schema.ofToml (← Action.readText p))
  else
    throw (.schemaNotFound p.text)

def Schema.save (s : Schema) (p : Path) : Action m Unit := Action.writeText p s.toToml

end

end RestQuery

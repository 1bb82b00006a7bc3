import RestQuery.Error
import RestQuery.Text.Utf8

/-!
# Files

Paths, and what the library does with files. `FileAccess` is all that it may
do; `RestQuery.Files.Disk` is a file system in memory that can do it.
-/

namespace RestQuery

/-- A path as it was given: it is joined and shown, never normalised. -/
structure Path where
  text : String
  deriving DecidableEq, Repr

namespace Path

def IsAbsolute (p : Path) : Prop := p.text.toList.head? = some '/'

instance (p : Path) : Decidable p.IsAbsolute := by unfold IsAbsolute; infer_instance

/-- An absolute second part replaces the first. -/
def join (p : Path) (part : String) : Path :=
  if (Path.mk part).IsAbsolute then ⟨part⟩
  else if p.text = "" ∨ p.text.toList.getLast? = some '/' then ⟨p.text ++ part⟩
  else ⟨p.text ++ "/" ++ part⟩

/-- What stands between the slashes, empty names and dots included. -/
def names (p : Path) : List String := (p.text.toList.splitOn '/').map .ofList

/-- The directories above a path, the nearest first, without the root or the
working directory that it starts from. -/
def above (p : Path) : List Path :=
  let proper := (p.names.filter fun name => name ≠ "" ∧ name ≠ ".").dropLast
  (List.range proper.length).reverse.map fun n =>
    ⟨(if p.IsAbsolute then "/" else "") ++ "/".intercalate (proper.take (n + 1))⟩

end Path

/-- What may be done with files. All but the two questions may fail. -/
class FileAccess (m : Type → Type) where
  fileExists : Path → m Bool
  isDirectory : Path → m Bool
  readFile : Path → m (Except FileFault (List UInt8))
  writeFile : Path → List UInt8 → m (Except FileFault Unit)
  /-- Makes a directory in one that is there. -/
  makeDir : Path → m (Except FileFault Unit)

abbrev Action (m : Type → Type) := ExceptT Error m

namespace Action

variable {m : Type → Type} [Monad m] [FileAccess m]

def ofExcept (result : Except Error α) : Action m α := ExceptT.mk (pure result)

def onFile (act : m (Except FileFault α)) : Action m α :=
  ExceptT.mk do
    match ← act with
    | .ok a => return .ok a
    | .error fault => return .error (.file fault)

def fileExists (p : Path) : Action m Bool := ExceptT.lift (FileAccess.fileExists p)

/-- Makes a directory, or is content with one that is there. -/
def ensureDir (p : Path) : m (Except FileFault Unit) := do
  match ← FileAccess.makeDir p with
  | .error .exists => return if ← FileAccess.isDirectory p then .ok () else .error .exists
  | made => return made

/-- Makes the first of some paths, each of which is in the next. The next is
made only if the one before cannot be made without it. -/
def ensureDirs : List Path → Action m Unit
  | [] => pure ()
  | p :: above => do
    match ← ExceptT.lift (ensureDir p) with
    | .ok () => pure ()
    | .error .noEntry =>
      ensureDirs above
      onFile (ensureDir p)
    | .error fault => throw (.file fault)

/-- Makes a directory and all that are missing above it. The empty path is
where relative paths start, which is there. -/
def makeDirs (p : Path) : Action m Unit :=
  if p.text = "" then pure () else ensureDirs (p :: p.above)

def readText (p : Path) : Action m String := do
  let bytes ← onFile (FileAccess.readFile p)
  match Text.decode? bytes with
  | some cs => return .ofList cs
  | none => throw (.file .notUtf8)

def writeText (p : Path) (text : String) : Action m Unit :=
  onFile (FileAccess.writeFile p (Text.utf8 text.toList))

end Action

end RestQuery

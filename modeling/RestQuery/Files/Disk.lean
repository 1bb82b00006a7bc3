import RestQuery.Files
import RestQuery.Text.Cut

/-!
# A file system in memory

A disk says what stands at each location, a location being the names of the
directories down to it. Paths are followed name by name: every name but the
last has to be a directory's, and a slash or a dot at the end asks for one.
-/

namespace RestQuery

inductive FileEntry where
  | file (content : List UInt8)
  | directory
  deriving DecidableEq, Repr

structure Disk where
  entry : List String → Option FileEntry
  /-- Where relative paths start. -/
  workingDirectory : List String

namespace Disk

/-- The root is always a directory. -/
def at? (d : Disk) (location : List String) : Option FileEntry :=
  if location = [] then some .directory else d.entry location

def file? (d : Disk) (location : List String) : Option (List UInt8) :=
  match d.at? location with
  | some (.file content) => some content
  | _ => none

def put (d : Disk) (location : List String) (e : FileEntry) : Disk :=
  { d with entry := fun l => if l = location then some e else d.entry l }

def remove (d : Disk) (location : List String) : Disk :=
  { d with entry := fun l => if l = location then none else d.entry l }

def follow (d : Disk) : List String → List String → Except FileFault (List String)
  | location, [] => .ok location
  | location, name :: names =>
    match d.at? location with
    | none => .error .noEntry
    | some (.file _) => .error .notDirectory
    | some .directory =>
      if name = "" ∨ name = "." then d.follow location names
      else if name = ".." then d.follow location.dropLast names
      else if (d.at? (location ++ [name])).isSome then d.follow (location ++ [name]) names
      else .error .noEntry

def start (d : Disk) (p : Path) : List String := if p.IsAbsolute then [] else d.workingDirectory

def locate (d : Disk) (p : Path) : Except FileFault (List String) :=
  if p.text = "" then .error .noEntry else d.follow (d.start p) p.names

def look (d : Disk) (p : Path) : Except FileFault FileEntry := do
  match d.at? (← d.locate p) with
  | some e => .ok e
  | none => .error .noEntry

/-- Where the last of some names is, or would be once it is made. -/
def place (d : Disk) (start names : List String) (last : String) :
    Except FileFault (List String) := do
  let parent ← d.follow start names
  match d.at? parent with
  | some .directory => .ok (parent ++ [last])
  | some (.file _) => .error .notDirectory
  | none => .error .noEntry

def read (d : Disk) (p : Path) : Except FileFault (List UInt8) := do
  match ← d.look p with
  | .file content => .ok content
  | .directory => .error .isDirectory

/-- Nothing can be written where a path ends in a slash or in dots. -/
def write (d : Disk) (p : Path) (content : List UInt8) : Except FileFault Disk := do
  let last := p.names.getLast?.getD ""
  if p.text = "" then .error .noEntry
  else if last ∈ ["", ".", ".."] then .error .isDirectory
  else
    let location ← d.place (d.start p) p.names.dropLast last
    if d.at? location = some .directory then .error .isDirectory
    else .ok (d.put location (.file content))

/-- Makes one directory, whether or not a slash follows its name. -/
def makeDir (d : Disk) (p : Path) : Except FileFault Disk := do
  let names := Text.trimEnd (· = "") p.names
  let last := names.getLast?.getD "."
  if last ∈ [".", ".."] then
    let _ ← d.follow (d.start p) names
    .error .exists
  else
    let location ← d.place (d.start p) names.dropLast last
    if (d.at? location).isSome then .error .exists else .ok (d.put location .directory)

def change (d : Disk) (changed : Except FileFault Disk) : Except FileFault Unit × Disk :=
  match changed with
  | .ok d => (.ok (), d)
  | .error fault => (.error fault, d)

end Disk

instance : FileAccess (StateM Disk) where
  fileExists p := fun d => ((d.look p).isOk, d)
  isDirectory p := fun d => (d.look p matches .ok .directory, d)
  readFile p := fun d => (d.read p, d)
  writeFile p content := fun d => d.change (d.write p content)
  makeDir p := fun d => d.change (d.makeDir p)

end RestQuery

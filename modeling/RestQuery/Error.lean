import RestQuery.Json.Fault
import RestQuery.Schema.Naming

/-!
# Errors

What can go wrong, by cause, with the wording and the status of each. Statuses
400 to 499 are the client's doing; everything else is the deployment's, and
`Rejection` does not tell the client more than that.
-/

namespace RestQuery

inductive FileFault where
  | noEntry
  | exists
  | notDirectory
  | isDirectory
  | notUtf8
  | other (text : String)
  deriving DecidableEq, Repr

def FileFault.message : FileFault → String
  | .noEntry => "No such file or directory (os error 2)"
  | .exists => "File exists (os error 17)"
  | .notDirectory => "Not a directory (os error 20)"
  | .isDirectory => "Is a directory (os error 21)"
  | .notUtf8 => "stream did not contain valid UTF-8"
  | .other text => text

inductive SettingsFault where
  | unreadable
  | zeroLimit
  | unwritableLimit
  | noHome
  | other (text : String)
  deriving DecidableEq, Repr

def SettingsFault.message : SettingsFault → String
  | .unreadable => "Failed to parse config: the file does not hold settings"
  | .zeroLimit => "default_limit must be positive"
  | .unwritableLimit => "Failed to serialize config: out-of-range value for u64 type"
  | .noHome => "Could not determine home directory"
  | .other text => text

inductive SchemaFault where
  | unreadable
  | offence (o : Offence)
  | nothingToServe
  | other (text : String)
  deriving DecidableEq, Repr

def SchemaFault.message : SchemaFault → String
  | .unreadable => "Failed to parse schema: the file does not hold a schema"
  | .offence o => o.message
  | .nothingToServe => "router needs at least one API"
  | .other text => text

inductive Error where
  | malformedWhere
  | unknownField (name : String)
  | notEmbeddable (name : String)
  | unknownComparison (token : String)
  | notFound (path : String)
  | unservedVersion (version : String)
  | unknownMethod (method : String)
  | file (fault : FileFault)
  | settings (fault : SettingsFault)
  | schema (fault : SchemaFault)
  | schemaNotFound (path : String)
  | alreadyInitialized (path : String)
  | json (fault : JsonFault)
  deriving DecidableEq, Repr

namespace Error

def message : Error → String
  | .malformedWhere => "Invalid Where Clause"
  | .unknownField name => "Invalid Field: " ++ name
  | .notEmbeddable name => "Invalid Related Field: " ++ name
  | .unknownComparison token => "Invalid Filter Operator: " ++ token
  | .notFound path => "Not Found: " ++ path
  | .unservedVersion version => "Unsupported API version: " ++ version
  | .unknownMethod method => "Method Not Allowed: " ++ method
  | .file fault => "IO error: " ++ fault.message
  | .settings fault => "Configuration error: " ++ fault.message
  | .schema fault => "Schema error: " ++ fault.message
  | .schemaNotFound path => "Schema file not found at " ++ path
  | .alreadyInitialized path => "edgeq already initialized at " ++ path
  | .json fault => "JSON error: " ++ fault.message

def status : Error → Nat
  | .malformedWhere | .unknownField _ | .notEmbeddable _ | .unknownComparison _
  | .unservedVersion _ => 400
  | .notFound _ => 404
  | .unknownMethod _ => 405
  | .file _ | .settings _ | .schema _ | .schemaNotFound _ | .alreadyInitialized _ | .json _ => 500

def IsClient (e : Error) : Prop := 400 ≤ e.status ∧ e.status < 500

instance (e : Error) : Decidable e.IsClient := by unfold IsClient; infer_instance

def report (e : Error) : String := "Error: " ++ toString e.status ++ " " ++ e.message ++ "\n"

end Error

structure Rejection where
  status : Nat
  message : String
  deriving DecidableEq, Repr

/-- A client error is told as it is; any other becomes a bare 500. -/
def Rejection.ofError (e : Error) : Rejection :=
  if e.IsClient then ⟨e.status, e.message⟩ else ⟨500, "Internal Server Error"⟩

def Rejection.line (r : Rejection) : String := toString r.status ++ " " ++ r.message

end RestQuery

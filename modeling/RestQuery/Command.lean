import RestQuery.Command.Arguments
import RestQuery.Command.Report
import RestQuery.Request.Router
import RestQuery.Schema.Sample
import RestQuery.Settings

/-!
# Commands

The commands `init`, `parse`, `route` and `edges`. All but the first load the
settings and the schema, and what they print depends on those and their
arguments alone.
-/

namespace RestQuery

structure Environment where
  root? : Option String := none
  dataHome? : Option String := none
  home? : Option String := none
  deriving DecidableEq, Repr

/-- The root itself if it is given, else a directory under the user's data
directory. A relative data directory does not count. -/
def Environment.root (env : Environment) : Except Error Path :=
  match env.root?, env.dataHome?.filter fun dir => (Path.mk dir).IsAbsolute, env.home? with
  | some root, _, _ => .ok ⟨root⟩
  | none, some dataHome, _ => .ok ((Path.mk dataHome).join "edgeq")
  | none, none, some home => .ok (((Path.mk home).join ".local/share").join "edgeq")
  | none, none, none => .error (.settings .noHome)

structure Outcome where
  exitCode : Nat
  output : String := ""
  errors : String := ""
  deriving DecidableEq, Repr

namespace Command

/-- The API of a version, the first one when none is asked for. -/
def apiOf (s : Schema) : Option String → Except Error Api
  | some version =>
    match s.api? version with
    | some a => .ok a
    | none => .error (.unservedVersion version)
  | none =>
    match s.apis.head? with
    | some a => .ok a
    | none => .error (.schema (.offence .noApi))

def parseQuery (settings : Settings) (s : Schema) (edge query : String)
    (version : Option String) : Except Error Query := do
  let api ← apiOf s version
  match api.edge? edge with
  | some e => Query.read e settings.defaultLimit (.ofQueryString query)
  | none => throw (.notFound ("/" ++ edge))

def renderQuery (format : Format) (q : Query) : String :=
  match format with
  | .text => textLines q.report
  | .json => q.toJson.pretty ++ "\n"

def routeRequest (settings : Settings) (s : Schema) (method target : String) :
    Except Error Request := do
  let router ← Router.ofSchema s settings.defaultLimit
  router.resolveTarget method target

def renderRequest (format : Format) (r : Request) : String :=
  match format with
  | .text => textLines r.report
  | .json => r.toJson.pretty ++ "\n"

def listEdges (s : Schema) (version : Option String) : Except Error String := do
  let apis ← if version.isSome then (do return [← apiOf s version]) else pure s.apis
  return textLines (apis.flatMap Api.report)

section

variable {m : Type → Type} [Monad m] [FileAccess m]

/-- Writes standard settings, and the sample schema unless there is a schema.
Settings that are there already are kept unless `force`. -/
def init (root : Path) (force : Bool) : Action m String := do
  let settings : Settings := { root }
  if (← Action.fileExists settings.path) && !force then
    throw (.alreadyInitialized root.text)
  settings.save
  if !(← Action.fileExists settings.schemaPath) || force then
    Schema.sample.save settings.schemaPath
  return textLines ["Initialized edgeq at " ++ root.text, "  config: " ++ settings.path.text,
    "  schema: " ++ settings.schemaPath.text]

def withStored (env : Environment) (f : Settings → Schema → Except Error String) :
    Action m String := do
  let settings ← Settings.load (← Action.ofExcept env.root)
  let s ← Schema.load settings.schemaPath
  Action.ofExcept (f settings s)

def perform (env : Environment) : Invocation → Action m String
  | .version => return "qs 0.1.0\n"
  | .init force => do init (← Action.ofExcept env.root) force
  | .parse edge query version format =>
    withStored env fun settings s =>
      (parseQuery settings s edge query version).map (renderQuery format)
  | .route method target format =>
    withStored env fun settings s =>
      (routeRequest settings s method target).map (renderRequest format)
  | .edges version => withStored env fun _ s => listEdges s version

def usage : String :=
  textLines ["usage: qs init [-f]", "       qs parse [-V VERSION] [-o FORMAT] EDGE QUERY",
    "       qs route [-o FORMAT] METHOD TARGET", "       qs edges [-V VERSION]",
    "       qs --version"]

/-- Runs the program. A command line that makes no sense ends it with 2, an
error with 1. -/
def run (env : Environment) (arguments : List String) : m Outcome := do
  match Invocation.ofCommandLine? arguments with
  | none => return { exitCode := 2, errors := usage }
  | some invocation =>
    match ← (perform env invocation : Action m String).run with
    | .ok output => return { exitCode := 0, output }
    | .error e => return { exitCode := 1, errors := e.report }

end

end Command

end RestQuery

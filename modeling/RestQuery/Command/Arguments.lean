/-!
# The arguments of a command

A command line names a subcommand; then come its words and options, in any
order. `-o V`, `-oV`, `-o=V`, `--format V` and `--format=V` say the same.
After `--` everything is a word. A lone `-` is a word too.
-/

namespace RestQuery

inductive Switch where
  | force
  | apiVersion
  | format
  deriving DecidableEq, Repr

namespace Switch

def letter : Switch → Char
  | .force => 'f'
  | .apiVersion => 'V'
  | .format => 'o'

def word : Switch → String
  | .force => "force"
  | .apiVersion => "api-version"
  | .format => "format"

def TakesValue : Switch → Prop
  | .force => False
  | .apiVersion | .format => True

instance (s : Switch) : Decidable s.TakesValue := by
  cases s <;> unfold TakesValue <;> infer_instance

end Switch

/-- The shape of one argument. A value may be attached to an option. -/
inductive Argument where
  | word (text : String)
  | endOfOptions
  | short (letter : Char) (attached : Option String)
  | long (name : String) (attached : Option String)
  deriving DecidableEq, Repr

namespace Argument

def ofString (text : String) : Argument :=
  match text.toList with
  | ['-', '-'] => .endOfOptions
  | '-' :: '-' :: rest =>
    match rest.span (· ≠ '=') with
    | (name, '=' :: attached) => .long (.ofList name) (some (.ofList attached))
    | (name, _) => .long (.ofList name) none
  | ['-', letter] => .short letter none
  | '-' :: letter :: '=' :: attached => .short letter (some (.ofList attached))
  | '-' :: letter :: attached => .short letter (some (.ofList attached))
  | _ => .word text

def switch? (allowed : List Switch) : Argument → Option (Switch × Option String)
  | .short letter attached => (allowed.find? (·.letter = letter)).map (·, attached)
  | .long name attached => (allowed.find? (·.word = name)).map (·, attached)
  | _ => none

end Argument

structure Arguments where
  words : List String := []
  switches : List (Switch × String) := []
  deriving DecidableEq, Repr

namespace Arguments

def addWord (text : String) (a : Arguments) : Arguments := { a with words := text :: a.words }

def addSwitch (s : Switch) (value : String) (a : Arguments) : Arguments :=
  { a with switches := (s, value) :: a.switches }

/-- Refuses options that are not allowed, values where none is taken, and
options without the value that they take. The next argument is that value
unless it looks like an option. -/
def read? (allowed : List Switch) : List String → Option Arguments
  | [] => some {}
  | text :: rest =>
    match Argument.ofString text with
    | .endOfOptions => some { words := rest }
    | .word text => (read? allowed rest).map (addWord text)
    | option =>
      match option.switch? allowed with
      | none => none
      | some (s, some value) =>
        if s.TakesValue then (read? allowed rest).map (addSwitch s value) else none
      | some (s, none) =>
        if s.TakesValue then
          match rest with
          | [] => none
          | value :: rest =>
            if Argument.ofString value = .word value then
              (read? allowed rest).map (addSwitch s value)
            else none
        else (read? allowed rest).map (addSwitch s "")

def Once (a : Arguments) : Prop := (a.switches.map Prod.fst).Nodup

instance (a : Arguments) : Decidable a.Once := by unfold Once; infer_instance

def value? (a : Arguments) (s : Switch) : Option String := a.switches.lookup s

end Arguments

inductive Format where
  | json
  | text
  deriving DecidableEq, Repr

/-- Any name but `text` asks for JSON. -/
def Format.ofName (name : String) : Format := if name = "text" then .text else .json

inductive Invocation where
  | version
  | init (force : Bool)
  | parse (edge query : String) (version : Option String) (format : Format)
  | route (method target : String) (format : Format)
  | edges (version : Option String)
  deriving DecidableEq, Repr

namespace Invocation

def ofArguments? (subcommand : String) (rest : List String) : Option Invocation :=
  match subcommand with
  | "init" => do
    let a ← once [.force]
    let [] := a.words | none
    return .init (a.value? .force).isSome
  | "parse" | "p" => do
    let a ← once [.apiVersion, .format]
    let [edge, query] := a.words | none
    return .parse edge query (a.value? .apiVersion) (format a)
  | "route" | "r" => do
    let a ← once [.format]
    let [method, target] := a.words | none
    return .route method target (format a)
  | "edges" => do
    let a ← once [.apiVersion]
    let [] := a.words | none
    return .edges (a.value? .apiVersion)
  | _ => none
where
  once (allowed : List Switch) : Option Arguments :=
    (Arguments.read? allowed rest).filter fun a => a.Once
  format (a : Arguments) : Format := ((a.value? .format).map .ofName).getD .json

/-- What the program is to do, if the command line makes sense. A version
option stands before the subcommand, and what follows it does not matter. -/
def ofCommandLine? : List String → Option Invocation
  | [] => none
  | first :: rest =>
    match Argument.ofString first with
    | .long "version" none => some .version
    | .short 'V' _ => some .version
    | .word subcommand => ofArguments? subcommand rest
    | _ => none

end Invocation

end RestQuery

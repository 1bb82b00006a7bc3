import RestQuery.Command
import RestQuery.Proofs.Schema.RoundTrip
import RestQuery.Proofs.Settings.Saving

/-!
# Runs of the program

A run ends as its command does (`run_on`). Loading changes nothing on the disk,
and what is loaded has been checked (`Schema.load_triple`); so a command that
reads what is stored ends as what it makes of that, and leaves the disk as it
was (`withStored_on`).
-/

namespace RestQuery

open RestQuery.Action (Triple Keeps)

variable {d : Disk} {env : Environment} {settings : Settings} {s : Schema}

-- ---------------------------------------------------------------------------
-- Loading
-- ---------------------------------------------------------------------------

theorem Settings.keeps_load (root : Path) :
    Keeps Eq (Settings.load root : Action (StateM Disk) Settings) := by
  refine (Action.keeps_fileExists _).bind fun found => ?_
  cases found with
  | true => exact (Action.keeps_readText _).bind fun _ => Action.keeps_ofExcept _
  | false => exact Action.keeps_pure _

theorem Schema.offence?_of_ofToml {source : String} (h : Schema.ofToml source = .ok s) :
    s.offence? = none := by
  unfold ofToml check at h
  split at h
  · split at h
    · cases h
    · cases h
      assumption
  · cases h

theorem Schema.load_triple (p : Path) (d : Disk) :
    Triple (Schema.load p) d (fun s after => d = after ∧ s.offence? = none)
      (fun _ after => d = after) := by
  refine (Action.keeps_fileExists p d).bind ?_
  rintro found _ rfl
  cases found with
  | false => exact .of_error rfl rfl
  | true =>
    refine (Action.keeps_readText p d).bind ?_
    rintro text _ rfl
    cases htext : Schema.ofToml text with
    | error e => exact .of_error rfl rfl
    | ok s => exact .of_ok rfl ⟨rfl, Schema.offence?_of_ofToml htext⟩

theorem Schema.keeps_load (p : Path) : Keeps Eq (Schema.load p : Action (StateM Disk) Schema) :=
  fun d => (Schema.load_triple p d).mono (fun _ _ h => h.1) (fun _ _ h => h)

/-- What the root holds: settings and the schema that they name, both of which can be loaded. -/
structure Stored (env : Environment) (d : Disk) (settings : Settings) (s : Schema) : Prop where
  atRoot : ∃ root, env.root = .ok root ∧
    ((Settings.load root : Action (StateM Disk) Settings).on d).1 = .ok settings
  schema : ((Schema.load settings.schemaPath : Action (StateM Disk) Schema).on d).1 = .ok s

theorem Stored.offence? (h : Stored env d settings s) : s.offence? = none :=
  ((Schema.load_triple settings.schemaPath d).ok ((Schema.keeps_load _).on_eq h.schema)).2

theorem Stored.of_look (hroot : env.root = .ok settings.root)
    (hlimit : settings.defaultLimit.toNat < Toml.integerBound) (hzero : settings.defaultLimit ≠ 0)
    (hs : s.offence? = none)
    (hsettings : d.look settings.path = .ok (.file (Text.utf8 settings.text.toList)))
    (hschema : d.look settings.schemaPath = .ok (.file (Text.utf8 s.toToml.toList))) :
    Stored env d settings s := by
  refine ⟨⟨settings.root, hroot, ?_⟩, ?_⟩
  · rw [Settings.load_on hsettings, Settings.ofToml_text hlimit, if_neg hzero]
  · rw [Schema.load_on hschema, Schema.ofToml_write, Schema.check, hs]

namespace Command

-- ---------------------------------------------------------------------------
-- Running
-- ---------------------------------------------------------------------------

def outcomeOf : Except Error String → Outcome
  | .ok output => { exitCode := 0, output }
  | .error e => { exitCode := 1, errors := e.report }

theorem run_on {arguments : List String} {invocation : Invocation} {result : Except Error String}
    {after : Disk} (h : Invocation.ofCommandLine? arguments = some invocation)
    (hon : (perform env invocation : Action (StateM Disk) String).on d = (result, after)) :
    (run env arguments : StateM Disk Outcome).run d = (outcomeOf result, after) := by
  unfold Action.on at hon
  rw [run, h]
  simp only
  rw [StateT.run_bind, hon]
  cases result <;> rfl

theorem withStored_on (h : Stored env d settings s)
    (f : Settings → Schema → Except Error String) :
    (withStored env f : Action (StateM Disk) String).on d = (f settings s, d) := by
  obtain ⟨root, hroot, hsettings⟩ := h.atRoot
  rw [withStored, Action.on_bind, Action.on_ofExcept, hroot]
  simp only
  rw [Action.on_bind, (Settings.keeps_load root).on_eq hsettings]
  simp only
  rw [Action.on_bind, (Schema.keeps_load _).on_eq h.schema]
  exact Action.on_ofExcept _ d

variable {arguments : List String} {edge query method target : String} {version : Option String}
  {format : Format}

theorem run_parse (h : Stored env d settings s)
    (harguments : Invocation.ofCommandLine? arguments = some (.parse edge query version format)) :
    (run env arguments : StateM Disk Outcome).run d =
      (outcomeOf ((parseQuery settings s edge query version).map (renderQuery format)), d) :=
  run_on harguments (withStored_on h _)

theorem run_route (h : Stored env d settings s)
    (harguments : Invocation.ofCommandLine? arguments = some (.route method target format)) :
    (run env arguments : StateM Disk Outcome).run d =
      (outcomeOf ((routeRequest settings s method target).map (renderRequest format)), d) :=
  run_on harguments (withStored_on h _)

end Command

end RestQuery

import RestQuery.Proofs.Command.Runs

/-!
# Setting up a root

The command `init` checks for settings, saves new ones and then writes the
sample schema. It leaves a root that is set up (`Initialized`) or, if it fails,
the files that were there; only a forced one can also stop half-way, where a
directory has the name of the schema file (`init_triple`, `init_failed`).
-/

namespace RestQuery

open RestQuery.Action (Triple)

variable {d after : Disk} {root p : Path} {parent : List String}

theorem isFileName_schema : IsFileName "schema.toml" := by decide

theorem Settings.text_standard (root : Path) :
    ({ root } : Settings).text = "default_limit = 10\nschema_file = \"schema.toml\"\n" := by
  cbv

/-- A schema is saved in a directory unless a directory has its name. -/
theorem Schema.save_on (s : Schema) {name : String} (hname : IsFileName name)
    (h : d.Opens p parent) :
    (s.save (p.join name) : Action (StateM Disk) Unit).on d =
      if d.at? (parent ++ [name]) = some .directory then (.error (.file .isDirectory), d)
      else (.ok (), d.put (parent ++ [name]) (.file (Text.utf8 s.toToml.toList))) := by
  rw [Schema.save, Action.writeText, Action.on_writeFile, h.write hname]
  by_cases hdir : d.at? (parent ++ [name]) = some .directory <;> simp [hdir]

namespace Command

/-- What becomes of the schema file: what has its name is kept, or it is the sample schema. -/
inductive SchemaLeft (force : Bool) (location : List String) (d : Disk) : Disk → Prop
  | kept {e : FileEntry} : force = false → d.at? location = some e → SchemaLeft force location d d
  | written : force = true ∨ d.at? location = none → d.at? location ≠ some .directory →
      SchemaLeft force location d (d.put location (.file (Text.utf8 Schema.sample.toToml.toList)))

/-- A root that is set up, with standard settings where none were found. -/
structure Initialized (root : Path) (force : Bool) (d after : Disk) : Prop where
  fresh : force = true ∨ (d.look ({ root } : Settings).path).isOk = false
  saved : ∃ parent middle, ({ root } : Settings).Saved d parent middle ∧
    SchemaLeft force (parent ++ ["schema.toml"]) middle after

/-- The settings were saved, and then a directory stood where the schema was to be written. -/
structure Interrupted (root : Path) (force : Bool) (d : Disk) (e : Error) (after : Disk) :
    Prop where
  forced : force = true
  error : e = .file .isDirectory
  saved : ∃ parent, ({ root } : Settings).Saved d parent after ∧
    after.at? (parent ++ ["schema.toml"]) = some .directory

/-- The last step: the sample schema is written unless something is there that is to be kept. -/
theorem schema_triple {middle : Disk} (h : middle.Opens root parent) (force : Bool)
    (output : String) :
    Triple (do
        if !(← Action.fileExists (root.join "schema.toml")) || force then
          Schema.sample.save (root.join "schema.toml")
        return output)
      middle (fun _ after => SchemaLeft force (parent ++ ["schema.toml"]) middle after)
      (fun e after => force = true ∧ e = .file .isDirectory ∧ middle = after ∧
        middle.at? (parent ++ ["schema.toml"]) = some .directory) := by
  refine (Action.fileExists_triple _ middle).bind ?_
  rintro found _ ⟨rfl, rfl⟩
  rw [h.isOk_look isFileName_schema]
  have hon := Schema.sample.save_on isFileName_schema h
  cases hat : middle.at? (parent ++ ["schema.toml"]) with
  | none =>
    rw [hat, if_neg nofun] at hon
    simp only [Option.isSome_none, Bool.not_false, Bool.true_or, if_true]
    refine (Triple.of_ok hon ?_).bind fun _ _ h => .of_ok rfl h
    exact .written (.inr hat) (by simp [hat])
  | some e =>
    cases force with
    | false => exact .of_ok rfl (.kept rfl hat)
    | true =>
      simp only [Bool.or_true, if_true]
      cases e with
      | directory =>
        rw [hat, if_pos rfl] at hon
        exact (Triple.of_error hon ⟨trivial, rfl, rfl, rfl⟩).bind fun _ _ h => .of_ok rfl h
      | file content =>
        rw [hat, if_neg nofun] at hon
        refine (Triple.of_ok hon ?_).bind fun _ _ h => .of_ok rfl h
        exact .written (.inl rfl) (by simp [hat])

theorem init_triple (root : Path) (force : Bool) (d : Disk) :
    Triple (init root force) d (fun _ after => Initialized root force d after)
      (fun e after => d.SameFiles after ∨ Interrupted root force d e after) := by
  unfold init
  refine (Action.fileExists_triple _ d).bind ?_
  rintro found _ ⟨hfound, rfl⟩
  by_cases hstop : (found && !force) = true
  · simp only [hstop]
    exact .of_error rfl (.inl (.refl d))
  · have hfresh : force = true ∨ (d.look ({ root } : Settings).path).isOk = false := by
      rw [← hfound]
      cases force <;> simp_all
    simp only [hstop]
    refine ((Settings.save_triple { root } d).mono (fun _ _ h => h) (fun _ _ => .inl)).bind ?_
    rintro _ middle ⟨parent, hsaved⟩
    refine (schema_triple hsaved.opens force _).mono ?_ ?_
    · intro _ after hschema
      exact ⟨hfresh, parent, middle, hsaved, hschema⟩
    · rintro e _ ⟨hforce, he, rfl, hdir⟩
      exact .inr ⟨hforce, he, parent, hsaved, hdir⟩

theorem perform_init_triple (env : Environment) (force : Bool) (d : Disk) :
    Triple (perform env (.init force)) d
      (fun _ after => ∃ root, env.root = .ok root ∧ Initialized root force d after)
      (fun e after => d.SameFiles after ∨
        ∃ root, env.root = .ok root ∧ Interrupted root force d e after) := by
  unfold perform
  cases hroot : env.root with
  | error e => exact .of_error rfl (.inl (.refl d))
  | ok root =>
    refine (init_triple root force d).mono (fun _ _ h => ⟨root, rfl, h⟩) fun _ _ h => ?_
    exact h.imp_right fun hinterrupted => ⟨root, rfl, hinterrupted⟩

end Command

end RestQuery

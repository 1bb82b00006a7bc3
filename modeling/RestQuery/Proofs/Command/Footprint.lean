import RestQuery.Proofs.Command.Initialization

/-!
# The footprint of setting up a root

The command `init` changes no file but the settings and the schema of the root,
and what it leaves can be loaded (`init_footprint`). Unless it is forced it keeps
what it finds. It looks for settings before it makes the root, though: a root
that climbs out of a missing directory leads nowhere then, and to settings once
that directory is made, which are overwritten (`settings_lost_by_init`).
-/

namespace RestQuery

variable {d middle after : Disk} {root : Path} {force : Bool} {l location parent : List String}
  {name : String} {e : FileEntry} {content : List UInt8}

namespace Settings.Saved

variable {s : Settings}

theorem locate (h : s.Saved d parent after) :
    after.locate s.path = .ok (parent ++ ["config.toml"]) :=
  h.opens.locate isFileName_config (by rw [h.file]; rfl)

theorem none_before (h : s.Saved d parent after) (htree : d.IsTree) (hdirect : d.Direct s.root)
    (hfresh : (d.look s.path).isOk = false) : d.at? (parent ++ ["config.toml"]) = none := by
  obtain ⟨made, hgains, hopens, -, -⟩ := h.written
  by_contra hne
  obtain ⟨e, he⟩ := Option.ne_none_iff_exists'.mp hne
  have hlook : d.look s.path = .ok e :=
    hgains.look htree hdirect hopens isFileName_config (hgains.at? he)
  rw [hlook] at hfresh
  cases hfresh

theorem at?_of_look (h : s.Saved d parent after) (hname : IsFileName name)
    (hne : name ≠ "config.toml") (hlook : d.look (s.root.join name) = .ok e) :
    after.at? (parent ++ [name]) = some e := by
  obtain ⟨made, hgains, hopens, -, rfl⟩ := h.written
  rw [Disk.at?_put_of_ne (by simpa using hne)]
  exact hgains.at?_of_look hopens hname hlook

theorem look_of_at? (h : s.Saved d parent after) (htree : d.IsTree) (hdirect : d.Direct s.root)
    (hname : IsFileName name) (hne : name ≠ "config.toml")
    (he : after.at? (parent ++ [name]) = some e) : d.look (s.root.join name) = .ok e := by
  obtain ⟨made, hgains, hopens, -, rfl⟩ := h.written
  rw [Disk.at?_put_of_ne (by simpa using hne)] at he
  exact hgains.look htree hdirect hopens hname he

end Settings.Saved

namespace Command

-- ---------------------------------------------------------------------------
-- The schema
-- ---------------------------------------------------------------------------

namespace SchemaLeft

theorem opens (h : SchemaLeft force location d after) (hopens : d.Opens root parent) :
    after.Opens root parent := by
  cases h with
  | kept => exact hopens
  | written _ hfree => exact hopens.put hfree

theorem at?_of_ne (h : SchemaLeft force location d after) (hne : l ≠ location) :
    after.at? l = d.at? l := by
  cases h with
  | kept => rfl
  | written => exact Disk.at?_put_of_ne hne

theorem isSome (h : SchemaLeft force location d after) (hroot : location ≠ []) :
    (after.at? location).isSome := by
  cases h with
  | kept _ he =>
    rw [he]
    rfl
  | written =>
    rw [Disk.at?_put_self hroot]
    rfl

/-- Unless it is forced, all that is there remains. -/
theorem at?_of_not_forced (h : SchemaLeft false location d after) (he : d.at? l = some e) :
    after.at? l = some e := by
  cases h with
  | kept => exact he
  | written hwrite _ =>
    have hnone : d.at? location = none := by simpa using hwrite
    have hne : l ≠ location := by
      rintro rfl
      simp [hnone] at he
    rw [Disk.at?_put_of_ne hne, he]

theorem sample (h : SchemaLeft force location d after) (hroot : location ≠ [])
    (hwrite : force = true ∨ d.at? location = none) :
    after.at? location = some (.file (Text.utf8 Schema.sample.toToml.toList)) := by
  cases h with
  | kept hforce he => simp [hforce, he] at hwrite
  | written => exact Disk.at?_put_self hroot

variable {s : Settings}

theorem settings (h : SchemaLeft force (parent ++ ["schema.toml"]) middle after)
    (hsaved : s.Saved d parent middle) :
    after.at? (parent ++ ["config.toml"]) = some (.file (Text.utf8 s.text.toList)) := by
  rw [h.at?_of_ne (by simp), hsaved.file]

theorem locate_settings (h : SchemaLeft force (parent ++ ["schema.toml"]) middle after)
    (hsaved : s.Saved d parent middle) :
    after.locate s.path = .ok (parent ++ ["config.toml"]) :=
  (h.opens hsaved.opens).locate Settings.isFileName_config (by rw [h.settings hsaved]; rfl)

end SchemaLeft

-- ---------------------------------------------------------------------------
-- The root
-- ---------------------------------------------------------------------------

namespace Initialized

theorem changed (h : Initialized root force d after) (hl : after.file? l ≠ d.file? l) :
    after.locate (root.join "config.toml") = .ok l ∨
      after.locate (root.join "schema.toml") = .ok l := by
  obtain ⟨parent, middle, hsaved, hschema⟩ := h.saved
  by_cases hconfig : l = parent ++ ["config.toml"]
  · subst hconfig
    exact .inl (hschema.locate_settings hsaved)
  · by_cases hlast : l = parent ++ ["schema.toml"]
    · subst hlast
      have hopens := hschema.opens hsaved.opens
      exact .inr (hopens.locate isFileName_schema (hschema.isSome (by simp)))
    · have hsame : after.file? l = middle.file? l := by
        rw [Disk.file?, Disk.file?, hschema.at?_of_ne hlast]
      exact absurd (hsame.trans (hsaved.others l hconfig)) hl

/-- The files that were there, but for settings out of reach of a path that is not direct. -/
theorem kept (h : Initialized root false d after) (htree : d.IsTree)
    (hl : d.file? l = some content) :
    after.file? l = some content ∨
      ¬d.Direct root ∧ after.locate (root.join "config.toml") = .ok l := by
  obtain ⟨parent, middle, hsaved, hschema⟩ := h.saved
  by_cases hconfig : l = parent ++ ["config.toml"]
  · subst hconfig
    refine .inr ⟨fun hdirect => ?_, hschema.locate_settings hsaved⟩
    have hnone := hsaved.none_before htree hdirect (h.fresh.resolve_left nofun)
    rw [Disk.file?_eq_some, hnone] at hl
    cases hl
  · rw [← hsaved.others l hconfig, Disk.file?_eq_some] at hl
    exact .inl (Disk.file?_eq_some.mpr (hschema.at?_of_not_forced hl))

theorem load_settings (h : Initialized root force d after) :
    (Settings.load root : Action (StateM Disk) Settings).on after = (.ok { root }, after) := by
  obtain ⟨parent, middle, hsaved, hschema⟩ := h.saved
  have hlook : after.look ({ root } : Settings).path =
      .ok (.file (Text.utf8 ({ root } : Settings).text.toList)) :=
    (hschema.opens hsaved.opens).look Settings.isFileName_config (hschema.settings hsaved)
  rw [Settings.load_on hlook]
  exact congrArg (·, after) (Settings.ofToml_text hsaved.limit)

theorem load_schema (h : Initialized root force d after)
    (hwrite : force = true ∨
      d.IsTree ∧ d.Direct root ∧ (d.look (root.join "schema.toml")).isOk = false) :
    (Schema.load (root.join "schema.toml") : Action (StateM Disk) Schema).on after =
      (.ok .sample, after) := by
  obtain ⟨parent, middle, hsaved, hschema⟩ := h.saved
  have hwritten : force = true ∨ middle.at? (parent ++ ["schema.toml"]) = none := by
    refine hwrite.imp_right fun ⟨htree, hdirect, hmissing⟩ => ?_
    by_contra hne
    obtain ⟨e, he⟩ := Option.ne_none_iff_exists'.mp hne
    rw [hsaved.look_of_at? htree hdirect isFileName_schema (by decide) he] at hmissing
    cases hmissing
  have hlook := (hschema.opens hsaved.opens).look isFileName_schema (hschema.sample (by simp) hwritten)
  rw [Schema.load_on hlook, Schema.ofToml_write, Schema.check, Schema.sample_offence?]

theorem look_schema (h : Initialized root false d after)
    (he : d.look (root.join "schema.toml") = .ok e) :
    after.look (root.join "schema.toml") = .ok e := by
  obtain ⟨parent, middle, hsaved, hschema⟩ := h.saved
  refine (hschema.opens hsaved.opens).look isFileName_schema (hschema.at?_of_not_forced ?_)
  exact hsaved.at?_of_look isFileName_schema (by decide) he

end Initialized

/-- Setting up a root changes no file but its settings and its schema. Unless it is forced it keeps
every file, but for settings that were out of reach because the root climbs out of a missing
directory. What it leaves is standard settings and the sample schema, or the schema that was there
if it was not forced. -/
theorem init_footprint {env : Environment} {arguments : List String} {outcome : Outcome}
    (htree : d.IsTree) (hinit : Invocation.ofCommandLine? arguments = some (.init force))
    (hrun : (run env arguments : StateM Disk Outcome).run d = (outcome, after)) :
    (∀ location, after.file? location ≠ d.file? location → ∃ root, env.root = .ok root ∧
      (after.locate (root.join "config.toml") = .ok location ∨
        after.locate (root.join "schema.toml") = .ok location)) ∧
    (force = false → ∀ location content, d.file? location = some content →
      after.file? location = some content ∨ ∃ root, env.root = .ok root ∧ ¬d.Direct root ∧
        after.locate (root.join "config.toml") = .ok location) ∧
    (outcome.exitCode = 0 → ∃ root, env.root = .ok root ∧
      (Settings.load root : Action (StateM Disk) Settings).on after = (.ok { root }, after) ∧
      (force = true ∨ d.Direct root ∧ (d.look (root.join "schema.toml")).isOk = false →
        (Schema.load (root.join "schema.toml") : Action (StateM Disk) Schema).on after =
          (.ok .sample, after)) ∧
      (force = false → ∀ e, d.look (root.join "schema.toml") = .ok e →
        after.look (root.join "schema.toml") = .ok e)) := by
  rcases hon : (perform env (.init force) : Action (StateM Disk) String).on d with ⟨result, left⟩
  rw [run_on hinit hon] at hrun
  obtain ⟨rfl, rfl⟩ := Prod.mk.inj hrun
  have hperform := perform_init_triple env force d
  cases result with
  | ok output =>
    obtain ⟨root, hroot, hdone⟩ := hperform.ok hon
    refine ⟨fun l hl => ⟨root, hroot, hdone.changed hl⟩, ?_, fun _ => ⟨root, hroot, ?_, ?_, ?_⟩⟩
    · rintro rfl l content hl
      exact (hdone.kept htree hl).imp_right fun hlost => ⟨root, hroot, hlost⟩
    · exact hdone.load_settings
    · exact fun hwrite => hdone.load_schema (hwrite.imp_right fun h => ⟨htree, h⟩)
    · rintro rfl e he
      exact hdone.look_schema he
  | error e =>
    rcases hperform.error hon with hsame | ⟨root, hroot, hforced, -, parent, hsaved, -⟩
    · refine ⟨fun l hl => absurd (hsame l) hl, fun _ l content hl => .inl ?_, nofun⟩
      rw [hsame l, hl]
    · refine ⟨fun l hl => ⟨root, hroot, .inl ?_⟩, fun hforce => ?_, nofun⟩
      · have hconfig : l = parent ++ ["config.toml"] := by
          by_contra hne
          exact hl (hsaved.others l hne)
        rw [hconfig]
        exact hsaved.locate
      · rw [hforced] at hforce
        cases hforce

def schemaDisk : Disk :=
  (Disk.blank.put ["srv"] .directory).put ["srv", "schema.toml"] (.file (Text.utf8 "# mine".toList))

theorem isTree_schemaDisk : schemaDisk.IsTree := by
  have hroot : Disk.blank.at? [] = some .directory := rfl
  have hsrv : (Disk.blank.put ["srv"] .directory).at? ["srv"] = some .directory := rfl
  exact (Disk.IsTree.blank.put hroot nofun).put hsrv nofun

def settledDisk : Disk :=
  schemaDisk.put ["srv", "config.toml"]
    (.file (Text.utf8 ({ root := ⟨"/srv"⟩ } : Settings).text.toList))

theorem init_footprint_schemaDisk :
    (run { root? := some "/srv" } ["init"] : StateM Disk Outcome).run schemaDisk =
      ({ exitCode := 0, output := "Initialized edgeq at /srv\n  config: /srv/config.toml\n" ++
          "  schema: /srv/schema.toml\n" }, settledDisk) ∧
    settledDisk.file? ["srv", "schema.toml"] = some (Text.utf8 "# mine".toList) ∧
    settledDisk.look ⟨"/srv/schema.toml"⟩ = .ok (.file (Text.utf8 "# mine".toList)) ∧
    (Settings.load ⟨"/srv"⟩ : Action (StateM Disk) Settings).on settledDisk =
      (.ok { root := ⟨"/srv"⟩ }, settledDisk) := by
  have hrun : (run { root? := some "/srv" } ["init"] : StateM Disk Outcome).run schemaDisk =
      ({ exitCode := 0, output := "Initialized edgeq at /srv\n  config: /srv/config.toml\n" ++
          "  schema: /srv/schema.toml\n" }, settledDisk) := rfl
  have hinit : Invocation.ofCommandLine? ["init"] = some (.init false) := rfl
  obtain ⟨-, hkeeps, hdone⟩ := init_footprint isTree_schemaDisk hinit hrun
  obtain ⟨root, hroot, hsettings, -, hschema⟩ := hdone rfl
  cases hroot
  refine ⟨hrun, ?_, hschema rfl _ rfl, hsettings⟩
  rcases hkeeps rfl ["srv", "schema.toml"] _ rfl with hkept | ⟨root, hroot, hclimbs, -⟩
  · exact hkept
  · cases hroot
    exact absurd (Disk.direct_of_not_mem (by decide)) hclimbs

def settingsDisk : Disk :=
  Disk.blank.put ["config.toml"] (.file (Text.utf8 "default_limit = 25\n".toList))

theorem isTree_settingsDisk : settingsDisk.IsTree := by
  have hroot : Disk.blank.at? [] = some .directory := rfl
  exact Disk.IsTree.blank.put hroot nofun

theorem file_settingsDisk :
    settingsDisk.file? ["config.toml"] = some (Text.utf8 "default_limit = 25\n".toList) := rfl

/-- From a directory that is missing the root climbs back to the settings. -/
def climbingDisk : Disk :=
  (((settingsDisk.put ["x"] .directory).put ["config.toml"]
    (.file (Text.utf8 ({ root := ⟨"x/.."⟩ } : Settings).text.toList))).put ["schema.toml"]
    (.file (Text.utf8 Schema.sample.toToml.toList)))

theorem run_settingsDisk :
    (run { root? := some "x/.." } ["init"] : StateM Disk Outcome).run settingsDisk =
      ({ exitCode := 0, output := "Initialized edgeq at x/..\n  config: x/../config.toml\n" ++
          "  schema: x/../schema.toml\n" }, climbingDisk) := rfl

/-- So settings can be lost even if `init` is not forced. -/
theorem settings_lost_by_init :
    ¬∀ (env : Environment) (arguments : List String) (d after : Disk) (outcome : Outcome),
      d.IsTree → Invocation.ofCommandLine? arguments = some (.init false) →
      (run env arguments : StateM Disk Outcome).run d = (outcome, after) →
      ∀ location content, d.file? location = some content →
        after.file? location = some content := by
  intro hkeeps
  have hkept := hkeeps _ _ _ _ _ isTree_settingsDisk rfl run_settingsDisk _ _ file_settingsDisk
  have hlost : climbingDisk.file? ["config.toml"] =
      some (Text.utf8 "default_limit = 10\nschema_file = \"schema.toml\"\n".toList) := by
    rw [← Settings.text_standard ⟨"x/.."⟩]
    rfl
  rw [hlost] at hkept
  revert hkept
  decide

end Command

end RestQuery

import RestQuery.Proofs.Files.Making
import RestQuery.Proofs.Toml.Documents
import RestQuery.Settings

/-!
# Saved settings

Settings that can be written are read back as they are, but a limit of zero is
refused (`Settings.ofToml_text`). Saving them either puts that text into their
file and changes no other, or fails and changes none (`Settings.save_triple`);
so what was saved is what is loaded (`Settings.save_load`).
-/

namespace RestQuery.Settings

open Toml (Table Statement Datum Line Makes)
open RestQuery.Action (Triple)

variable {s : Settings} {d after : Disk} {root : Path} {parent : List String}

-- ---------------------------------------------------------------------------
-- The text of settings
-- ---------------------------------------------------------------------------

/-- What is written for settings, if their limit can be written at all. -/
def text (s : Settings) : String := .ofList (Line.write s.lines)

def table (s : Settings) : Table :=
  [("default_limit", (Datum.count s.defaultLimit.toNat).node),
    ("schema_file", (Datum.text s.schemaFile).node)]

theorem makes (s : Settings) : Makes (s.lines.map Line.statement) s.table := by
  have hlines : s.lines.map Line.statement = Statement.entries s.table := rfl
  rw [hlines]
  exact ⟨[], Toml.foldlM_entries [] (by simp [table])⟩

theorem lines_writable (h : s.defaultLimit.toNat < Toml.integerBound) :
    ∀ l ∈ s.lines, l.Writable := by
  simp only [lines, List.forall_mem_cons, List.not_mem_nil, false_imp_iff, implies_true, and_true]
  exact ⟨⟨by simp [Toml.IsBare, Toml.isBareChar], h⟩, by simp [Toml.IsBare, Toml.isBareChar], trivial⟩

theorem ofDocument?_table (s : Settings) (current : List String) :
    ofDocument? s.root ⟨s.table, current⟩ = some s := by
  have hlimit : countOfNode? (Datum.count s.defaultLimit.toNat).node = some s.defaultLimit := by
    simp [countOfNode?, Datum.node]
  have hfile : (Datum.text s.schemaFile).node.text? = some s.schemaFile := rfl
  have hlookupLimit : s.table.lookup "default_limit" =
      some (Datum.count s.defaultLimit.toNat).node := rfl
  have hlookupFile : s.table.lookup "schema_file" = some (Datum.text s.schemaFile).node := rfl
  simp only [ofDocument?, hlookupLimit, hlookupFile, hlimit, hfile]
  rfl

theorem ofToml_text (h : s.defaultLimit.toNat < Toml.integerBound) :
    ofToml s.root s.text = if s.defaultLimit = 0 then .error (.settings .zeroLimit) else .ok s := by
  obtain ⟨current, hparse⟩ := Toml.parse?_write (lines_writable h) s.makes
  rw [ofToml, text, hparse, Option.bind_some, ofDocument?_table]

theorem toToml_ok {text : String} :
    s.toToml = .ok text ↔ s.defaultLimit.toNat < Toml.integerBound ∧ text = s.text := by
  unfold toToml
  split
  next h => simp [h, Settings.text, eq_comm]
  next h => simp [h]

-- ---------------------------------------------------------------------------
-- Loading and saving
-- ---------------------------------------------------------------------------

theorem load_on {text : String}
    (h : d.look (path { root }) = .ok (.file (Text.utf8 text.toList))) :
    (load root : Action (StateM Disk) Settings).on d = (ofToml root text, d) := by
  rw [load, Action.on_bind, Action.on_fileExists, h]
  simp only [Except.isOk, Except.toBool, if_true]
  rw [Action.on_bind, Action.on_readText (Disk.read_of_look h)]
  exact Action.on_ofExcept (ofToml root text) d

theorem isFileName_config : IsFileName "config.toml" := by decide

structure Saved (s : Settings) (d : Disk) (parent : List String) (after : Disk) : Prop where
  limit : s.defaultLimit.toNat < Toml.integerBound
  written : ∃ made, d.Gains s.root made ∧ made.Opens s.root parent ∧
    made.at? (parent ++ ["config.toml"]) ≠ some .directory ∧
    after = made.put (parent ++ ["config.toml"]) (.file (Text.utf8 s.text.toList))

theorem Saved.opens (h : s.Saved d parent after) : after.Opens s.root parent := by
  obtain ⟨made, -, hopens, hfree, rfl⟩ := h.written
  exact hopens.put hfree

theorem Saved.file (h : s.Saved d parent after) :
    after.at? (parent ++ ["config.toml"]) = some (.file (Text.utf8 s.text.toList)) := by
  obtain ⟨made, -, -, -, rfl⟩ := h.written
  exact Disk.at?_put_self (by simp)

theorem Saved.others (h : s.Saved d parent after) :
    d.SameFilesBut (parent ++ ["config.toml"]) after := by
  obtain ⟨made, hgains, -, -, rfl⟩ := h.written
  exact hgains.sameFiles.trans_but (Disk.sameFilesBut_put made _ _)

theorem Saved.look (h : s.Saved d parent after) :
    after.look s.path = .ok (.file (Text.utf8 s.text.toList)) :=
  h.opens.look isFileName_config h.file

theorem save_triple (s : Settings) (d : Disk) :
    Triple s.save d (fun _ after => ∃ parent, s.Saved d parent after)
      (fun _ after => d.SameFiles after) := by
  have hmakes : Triple (Action.makeDirs s.root) d (fun _ made => d.Gains s.root made)
      (fun _ after => d.SameFiles after) :=
    (Disk.gains_makeDirs s.root d).mono (fun _ _ h => h) fun _ _ h => h.sameFiles
  refine hmakes.bind fun _ made hgains => ?_
  have hmade := hgains.sameFiles
  cases htext : s.toToml with
  | error e => exact .of_error rfl hmade
  | ok text =>
    obtain ⟨hlimit, rfl⟩ := toToml_ok.mp htext
    have hwrite := Action.on_writeFile s.path (Text.utf8 s.text.toList) made
    cases hdisk : made.write s.path (Text.utf8 s.text.toList) with
    | error fault =>
      rw [hdisk] at hwrite
      exact .of_error hwrite hmade
    | ok after =>
      rw [hdisk] at hwrite
      obtain ⟨parent, hopens, hfree, rfl⟩ := Disk.opens_of_write isFileName_config hdisk
      exact .of_ok hwrite ⟨parent, hlimit, made, hgains, hopens, hfree, rfl⟩

/-- Saved settings are loaded as they were, or refused for a limit of zero; settings that cannot be
saved leave every file as it was, and those whose limit is no TOML integer never can. -/
theorem save_load (s : Settings) (d : Disk) :
    (∀ after, (s.save : Action (StateM Disk) Unit).on d = (.ok (), after) →
      (load s.root : Action (StateM Disk) Settings).on after =
        (if s.defaultLimit = 0 then .error (.settings .zeroLimit) else .ok s, after)) ∧
    (∀ e after, (s.save : Action (StateM Disk) Unit).on d = (.error e, after) →
      ∀ location, after.file? location = d.file? location) ∧
    (9223372036854775807 < s.defaultLimit.toNat →
      ∃ e after, (s.save : Action (StateM Disk) Unit).on d = (.error e, after)) ∧
    Error.message (.settings .zeroLimit) = "Configuration error: default_limit must be positive" := by
  have hsave := s.save_triple d
  refine ⟨?_, ?_, ?_, rfl⟩
  · intro after hon
    obtain ⟨parent, hsaved⟩ := hsave.ok hon
    rw [load_on hsaved.look, ofToml_text hsaved.limit]
  · intro e after hon
    exact hsave.error hon
  · intro hlimit
    rcases hon : (s.save : Action (StateM Disk) Unit).on d with ⟨outcome, after⟩
    cases outcome with
    | error e => exact ⟨e, after, rfl⟩
    | ok _ =>
      obtain ⟨parent, hsaved⟩ := hsave.ok hon
      have hwritable : s.defaultLimit.toNat < 9223372036854775808 := hsaved.limit
      omega

def quotedSettings : Settings where
  root := ⟨"/srv/api"⟩
  defaultLimit := 25
  schemaFile := "it's\n\"v\\1\".toml"

theorem save_load_quoted :
    (∃ after, (quotedSettings.save : Action (StateM Disk) Unit).on Disk.blank = (.ok (), after) ∧
      (load ⟨"/srv/api"⟩ : Action (StateM Disk) Settings).on after = (.ok quotedSettings, after)) ∧
    (9223372036854775807 < (9223372036854775808 : UInt64).toNat ∧ ∃ e after,
      ({ quotedSettings with defaultLimit := 9223372036854775808 }.save :
        Action (StateM Disk) Unit).on Disk.blank = (.error e, after) ∧
      ∀ location, after.file? location = Disk.blank.file? location) := by
  have hon : (quotedSettings.save : Action (StateM Disk) Unit).on Disk.blank =
      (.ok (), ((quotedSettings.save : Action (StateM Disk) Unit).on Disk.blank).2) := rfl
  obtain ⟨hload, -⟩ := save_load quotedSettings Disk.blank
  obtain ⟨-, hkeeps, hfails, -⟩ :=
    save_load { quotedSettings with defaultLimit := 9223372036854775808 } Disk.blank
  have hlimit : 9223372036854775807 < (9223372036854775808 : UInt64).toNat := by decide
  obtain ⟨e, after, hfailed⟩ := hfails hlimit
  exact ⟨⟨_, hon, hload _ hon⟩, hlimit, e, after, hfailed, hkeeps e after hfailed⟩

end RestQuery.Settings

import RestQuery.Proofs.Command.Runs
import RestQuery.Proofs.Query.ReadLaws
import RestQuery.Proofs.Request.Addresses

/-!
# Whose fault an error is

What can be wrong with a request is one of the seven causes of
`Error.OfRequest`, and the client is told which. Settings and schemas fail for
causes of the deployment, none of which the client is told. `errors_blamed`
puts the two together: no request ends in the error of a deployment, and no
deployment in that of a request.
-/

namespace RestQuery

open RestQuery.Action (Triple)

namespace Error

/-- The errors that a request can end in, each with its status. -/
inductive OfRequest : Error → Nat → Prop
  | notFound (path : String) : OfRequest (.notFound path) 404
  | unknownMethod (method : String) : OfRequest (.unknownMethod method) 405
  | unservedVersion (version : String) : OfRequest (.unservedVersion version) 400
  | malformedWhere : OfRequest .malformedWhere 400
  | unknownField (name : String) : OfRequest (.unknownField name) 400
  | notEmbeddable (name : String) : OfRequest (.notEmbeddable name) 400
  | unknownComparison (token : String) : OfRequest (.unknownComparison token) 400

/-- An error of the client, who is told it as it is. -/
structure Told (e : Error) : Prop where
  ofRequest : e.OfRequest e.status
  isClient : e.IsClient
  rejection : Rejection.ofError e = ⟨e.status, e.message⟩

/-- An error of the deployment, of which the client is told nothing. -/
structure Hidden (e : Error) : Prop where
  status : e.status = 500
  not_isClient : ¬e.IsClient
  rejection : Rejection.ofError e = ⟨500, "Internal Server Error"⟩

variable {e : Error}

theorem OfRequest.told {status : Nat} (h : e.OfRequest status) : e.Told := by
  have hstatus : e.status = status := by cases h <;> rfl
  have hclient : e.IsClient := by
    rw [IsClient, hstatus]
    cases h <;> decide
  exact ⟨hstatus ▸ h, hclient, if_pos hclient⟩

theorem hidden_of_status (h : e.status = 500) : e.Hidden := by
  have hclient : ¬e.IsClient := by simp [IsClient, h]
  exact ⟨h, hclient, if_neg hclient⟩

end Error

-- ---------------------------------------------------------------------------
-- Requests
-- ---------------------------------------------------------------------------

theorem Edge.told_of_readFilter {e : Edge} {key : String} {value : Value} {err : Error}
    (h : e.readFilter key value = .error err) : err.Told := by
  unfold readFilter at h
  split at h
  · simp only [bind_error, checkField_error, pure_ne_error, and_false, exists_false, or_false] at h
    rw [h.2]
    exact (Error.OfRequest.unknownField key).told
  · split at h
    · cases h
      exact Error.OfRequest.malformedWhere.told
    · rename_i c _
      simp only [bind_error, checkField_error, Comparison.ofOperator_error, pure_ne_error, and_false,
        exists_false, or_false] at h
      rcases h with ⟨-, rfl⟩ | ⟨-, -, token, -, -, rfl⟩
      · exact (Error.OfRequest.unknownField c.field).told
      · exact (Error.OfRequest.unknownComparison token).told

theorem Query.told_of_read {e : Edge} {d : UInt64} {p : Parameters} {err : Error}
    (h : read e d p = .error err) : err.Told := by
  simp only [read, bind_error, pure_ne_error, and_false, exists_false, or_false] at h
  -- the pass that fails, and in it the first element that fails
  rcases h with hfields | ⟨-, -, hhandles | ⟨-, -, hsort | ⟨-, -, hfilters⟩⟩⟩
  · obtain ⟨-, name, -, -, -, hname⟩ := mapM_error.mp hfields
    simp only [bind_error, Edge.checkField_error, pure_ne_error, and_false, exists_false,
      or_false] at hname
    rw [hname.2]
    exact (Error.OfRequest.unknownField name).told
  · obtain ⟨-, name, -, -, -, hname⟩ := mapM_error.mp hhandles
    rw [(Edge.readHandle_error.mp hname).2]
    exact (Error.OfRequest.notEmbeddable name).told
  · obtain ⟨-, item, -, -, -, hitem⟩ := mapM_error.mp hsort
    rw [(Edge.readSortKey_error.mp hitem).2]
    exact (Error.OfRequest.unknownField _).told
  · obtain ⟨-, entry, -, -, -, hentry⟩ := mapM_error.mp hfilters
    exact Edge.told_of_readFilter hentry

theorem Router.told_of_resolve {r : Router} {method path : String} {p : Parameters} {err : Error}
    (h : r.resolve method path p = .error err) : err.Told := by
  rw [resolve_eq, bind_error] at h
  rcases h with haddress | ⟨x, -, hanswer⟩
  · rcases address_error haddress with ⟨version, rfl⟩ | ⟨resource, rfl⟩
    · exact (Error.OfRequest.unservedVersion version).told
    · exact (Error.OfRequest.notFound resource).told
  · unfold Address.answer at hanswer
    split at hanswer
    · cases hanswer
      exact (Error.OfRequest.unknownMethod method).told
    · exact Query.told_of_read ((SameFailure.map _ _ err).mpr hanswer)

-- ---------------------------------------------------------------------------
-- Deployments
-- ---------------------------------------------------------------------------

/-- All that can go wrong with a file is the file's fault. -/
theorem Action.readText_fails (p : Path) (d : Disk) :
    Triple (Action.readText p) d (fun _ _ => True) (fun e _ => ∃ fault, e = .file fault) := by
  have hread : Triple (Action.onFile (FileAccess.readFile p)) d (fun _ _ => True)
      (fun e _ => ∃ fault, e = .file fault) := by
    have hon := Action.on_readFile p d
    cases hdisk : d.read p with
    | ok content => exact .of_ok (hon.trans (by rw [hdisk])) trivial
    | error fault => exact .of_error (hon.trans (by rw [hdisk])) ⟨fault, rfl⟩
  refine hread.bind fun bytes middle _ => ?_
  cases Text.decode? bytes with
  | some cs => exact .of_ok rfl trivial
  | none => exact .of_error rfl ⟨_, rfl⟩

theorem Settings.ofToml_error {root : Path} {source : String} {err : Error}
    (h : ofToml root source = .error err) : ∃ fault, err = .settings fault := by
  unfold ofToml at h
  split at h
  · cases h
    exact ⟨_, rfl⟩
  · split at h <;> cases h
    exact ⟨_, rfl⟩

theorem Schema.check_error {s : Schema} {err : Error} :
    s.check = .error err ↔ ∃ o, s.offence? = some o ∧ err = .schema (.offence o) := by
  unfold check
  cases s.offence? <;> simp [eq_comm]

theorem Schema.ofToml_error {source : String} {err : Error} (h : ofToml source = .error err) :
    ∃ fault, err = .schema fault := by
  unfold ofToml at h
  split at h
  · obtain ⟨o, -, rfl⟩ := check_error.mp h
    exact ⟨_, rfl⟩
  · cases h
    exact ⟨_, rfl⟩

theorem Settings.load_fails (root : Path) (d : Disk) :
    Triple (load root) d (fun _ _ => True)
      (fun e _ => (∃ fault, e = .file fault) ∨ ∃ fault, e = .settings fault) := by
  refine (Action.fileExists_triple _ d).bind ?_
  rintro found _ ⟨-, rfl⟩
  cases found with
  | false => exact .of_ok rfl trivial
  | true =>
    refine ((Action.readText_fails _ d).mono (fun _ _ h => h) fun _ _ => .inl).bind ?_
    intro text middle _
    cases htext : ofToml root text with
    | ok s => exact .of_ok rfl trivial
    | error e => exact .of_error rfl (.inr (ofToml_error htext))

theorem Schema.load_fails (p : Path) (d : Disk) :
    Triple (load p) d (fun _ _ => True)
      (fun e _ => e = .schemaNotFound p.text ∨ (∃ fault, e = .file fault) ∨
        ∃ fault, e = .schema fault) := by
  refine (Action.fileExists_triple _ d).bind ?_
  rintro found _ ⟨-, rfl⟩
  cases found with
  | false => exact .of_error rfl (.inl rfl)
  | true =>
    refine ((Action.readText_fails _ d).mono (fun _ _ h => h) fun _ _ => .inr ∘ .inl).bind ?_
    intro text middle _
    cases htext : ofToml text with
    | ok s => exact .of_ok rfl trivial
    | error e => exact .of_error rfl (.inr (.inr (ofToml_error htext)))

-- ---------------------------------------------------------------------------
-- All errors
-- ---------------------------------------------------------------------------

/-- The error of a request is the client's and is told; the error of a deployment, whatever stands
in its files, is a bare 500. -/
theorem errors_blamed :
    (∀ (r : Router) method path p e, r.resolve method path p = .error e → e.Told) ∧
    (∀ (r : Router) method target e, r.resolveTarget method target = .error e → e.Told) ∧
    (∀ root d e after,
      (Settings.load root : Action (StateM Disk) Settings).on d = (.error e, after) → e.Hidden) ∧
    (∀ (s : Settings) d e after,
      (Schema.load s.schemaPath : Action (StateM Disk) Schema).on d = (.error e, after) →
        e.Hidden) ∧
    (∀ source e, Schema.ofToml source = .error e → e.Hidden) ∧
    ∀ (s : Schema) e, s.check = .error e → e.Hidden := by
  refine ⟨fun _ _ _ _ _ => Router.told_of_resolve, fun _ _ _ _ => Router.told_of_resolve,
    ?_, ?_, ?_, ?_⟩
  · intro root d e after hon
    rcases (Settings.load_fails root d).error hon with ⟨fault, rfl⟩ | ⟨fault, rfl⟩ <;>
      exact Error.hidden_of_status rfl
  · intro s d e after hon
    rcases (Schema.load_fails s.schemaPath d).error hon with rfl | ⟨fault, rfl⟩ | ⟨fault, rfl⟩ <;>
      exact Error.hidden_of_status rfl
  · intro source e h
    obtain ⟨fault, rfl⟩ := Schema.ofToml_error h
    exact Error.hidden_of_status rfl
  · intro s e h
    obtain ⟨o, -, rfl⟩ := Schema.check_error.mp h
    exact Error.hidden_of_status rfl

def zeroLimitDisk : Disk :=
  (Disk.blank.put ["srv"] .directory).put ["srv", "config.toml"]
    (.file (Text.utf8 ({ root := ⟨"/srv"⟩, defaultLimit := 0 } : Settings).text.toList))

theorem load_zeroLimitDisk :
    (Settings.load ⟨"/srv"⟩ : Action (StateM Disk) Settings).on zeroLimitDisk =
      (.error (.settings .zeroLimit), zeroLimitDisk) := by
  have hlook : zeroLimitDisk.look ({ root := ⟨"/srv"⟩ } : Settings).path =
      .ok (.file (Text.utf8 ({ root := ⟨"/srv"⟩, defaultLimit := 0 } : Settings).text.toList)) :=
    rfl
  rw [Settings.load_on hlook]
  exact congrArg (·, zeroLimitDisk)
    (Settings.ofToml_text (s := { root := ⟨"/srv"⟩, defaultLimit := 0 }) (by decide))

theorem errors_blamed_media :
    (Router.mediaRouter.resolve "OPTIONS" "/videos" .empty = .error (.unknownMethod "OPTIONS") ∧
      (Error.unknownMethod "OPTIONS").Told) ∧
    (Router.mediaRouter.resolveTarget "GET" "/videos?where[like][title]=a" =
        .error (.unknownComparison "like") ∧ (Error.unknownComparison "like").Told) ∧
    ((Settings.load ⟨"/srv"⟩ : Action (StateM Disk) Settings).on zeroLimitDisk =
        (.error (.settings .zeroLimit), zeroLimitDisk) ∧ (Error.settings .zeroLimit).Hidden) ∧
    ((Schema.load ({ root := ⟨"/srv"⟩ } : Settings).schemaPath : Action (StateM Disk) Schema).on
        zeroLimitDisk = (.error (.schemaNotFound "/srv/schema.toml"), zeroLimitDisk) ∧
      (Error.schemaNotFound "/srv/schema.toml").Hidden) ∧
    (Schema.ofToml "" = .error (.schema (.offence .noApi)) ∧
      (Error.schema (.offence .noApi)).Hidden) := by
  obtain ⟨hresolve, htarget, hsettings, hschema, htoml, -⟩ := errors_blamed
  have hmethod : Router.mediaRouter.resolve "OPTIONS" "/videos" .empty =
      .error (.unknownMethod "OPTIONS") := rfl
  have hoperator : Router.mediaRouter.resolveTarget "GET" "/videos?where[like][title]=a" =
      .error (.unknownComparison "like") := rfl
  have hmissing :
      (Schema.load ({ root := ⟨"/srv"⟩ } : Settings).schemaPath : Action (StateM Disk) Schema).on
        zeroLimitDisk = (.error (.schemaNotFound "/srv/schema.toml"), zeroLimitDisk) := rfl
  have hempty : Schema.ofToml "" = .error (.schema (.offence .noApi)) := by decide +kernel
  exact ⟨⟨hmethod, hresolve _ _ _ _ _ hmethod⟩, ⟨hoperator, htarget _ _ _ _ hoperator⟩,
    ⟨load_zeroLimitDisk, hsettings _ _ _ _ load_zeroLimitDisk⟩,
    ⟨hmissing, hschema _ _ _ _ hmissing⟩, ⟨hempty, htoml _ _ hempty⟩⟩

end RestQuery

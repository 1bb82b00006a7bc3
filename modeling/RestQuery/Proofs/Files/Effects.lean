import RestQuery.Proofs.Files.Actions
import RestQuery.Proofs.Files.Directories

/-!
# What an action leaves behind

A `Triple` says what holds of the disk after an action, of what it returned or
of the error it failed with. A chain of actions is taken apart by `Triple.bind`.
Making directories, whether or not it succeeds, keeps what making one of them
keeps (`keeps_makeDirs`), and a question changes nothing at all
(`keeps_readText`).
-/

namespace RestQuery

/-- Every file has the content that it had before, and there are no others. -/
def Disk.SameFiles (d after : Disk) : Prop := ∀ location, after.file? location = d.file? location

def Disk.SameFilesBut (d : Disk) (location : List String) (after : Disk) : Prop :=
  ∀ l, l ≠ location → after.file? l = d.file? l

namespace Disk

def blank : Disk := ⟨fun _ => none, []⟩

variable {d middle after : Disk} {location : List String}

theorem SameFiles.refl (d : Disk) : d.SameFiles d := fun _ => rfl

theorem SameFiles.trans_but (h : d.SameFiles middle) (h' : middle.SameFilesBut location after) :
    d.SameFilesBut location after :=
  fun l hl => (h' l hl).trans (h l)

theorem sameFilesBut_put (d : Disk) (location : List String) (e : FileEntry) :
    d.SameFilesBut location (d.put location e) := by
  intro l hl
  rw [file?, file?, at?_put_of_ne hl]

end Disk

namespace Action

-- ---------------------------------------------------------------------------
-- Triples
-- ---------------------------------------------------------------------------

/-- After the action on this disk, `Q` holds of what it returned and the disk, or `E` of its error
and the disk. -/
def Triple {α : Type} (act : Action (StateM Disk) α) (d : Disk) (Q : α → Disk → Prop)
    (E : Error → Disk → Prop) : Prop :=
  match act.on d with
  | (.ok a, after) => Q a after
  | (.error e, after) => E e after

variable {α β : Type} {act : Action (StateM Disk) α} {d after : Disk} {Q : α → Disk → Prop}
  {E : Error → Disk → Prop}

theorem Triple.of_ok {a : α} (h : act.on d = (.ok a, after)) (hQ : Q a after) :
    Triple act d Q E := by
  rw [Triple, h]
  exact hQ

theorem Triple.of_error {e : Error} (h : act.on d = (.error e, after)) (hE : E e after) :
    Triple act d Q E := by
  rw [Triple, h]
  exact hE

theorem Triple.ok {a : α} (h : Triple act d Q E) (hon : act.on d = (.ok a, after)) : Q a after := by
  rwa [Triple, hon] at h

theorem Triple.error {e : Error} (h : Triple act d Q E) (hon : act.on d = (.error e, after)) :
    E e after := by
  rwa [Triple, hon] at h

theorem Triple.bind {f : α → Action (StateM Disk) β} {R : β → Disk → Prop} (h : Triple act d Q E)
    (hf : ∀ a after, Q a after → Triple (f a) after R E) : Triple (act >>= f) d R E := by
  rw [Triple, on_bind]
  rcases hon : act.on d with ⟨outcome, after⟩
  cases outcome with
  | error e => exact h.error hon
  | ok a => exact hf a after (h.ok hon)

theorem Triple.mono {Q' : α → Disk → Prop} {E' : Error → Disk → Prop} (h : Triple act d Q E)
    (hQ : ∀ a after, Q a after → Q' a after) (hE : ∀ e after, E e after → E' e after) :
    Triple act d Q' E' := by
  rcases hon : act.on d with ⟨outcome, after⟩
  cases outcome with
  | error e => exact .of_error hon (hE e after (h.error hon))
  | ok a => exact .of_ok hon (hQ a after (h.ok hon))

/-- However the action ends, the disk afterwards is `R` to the disk before. -/
def Keeps {α : Type} (R : Disk → Disk → Prop) (act : Action (StateM Disk) α) : Prop :=
  ∀ d, Triple act d (fun _ after => R d after) (fun _ after => R d after)

section
variable {R : Disk → Disk → Prop} [IsPreorder Disk R]

theorem Keeps.bind {f : α → Action (StateM Disk) β} (h : Keeps R act) (hf : ∀ a, Keeps R (f a)) :
    Keeps R (act >>= f) := by
  intro d
  refine (h d).bind fun a middle hmiddle => ?_
  exact (hf a middle).mono (fun _ _ => IsTrans.trans _ _ _ hmiddle)
    (fun _ _ => IsTrans.trans _ _ _ hmiddle)

theorem keeps_pure (a : α) : Keeps R (pure a) := fun d => .of_ok rfl (refl d)

theorem keeps_throw (e : Error) : Keeps R (throw e : Action (StateM Disk) α) :=
  fun d => .of_error rfl (refl d)

end

/-- An action that changes nothing leaves the disk as it is, whatever it returns. -/
theorem Keeps.on_eq {outcome : Except Error α} (h : Keeps Eq act) (houtcome : (act.on d).1 = outcome) :
    act.on d = (outcome, d) := by
  obtain rfl := houtcome
  rcases hon : act.on d with ⟨outcome, after⟩
  cases outcome with
  | error e => rw [(h d).error hon]
  | ok a => rw [(h d).ok hon]

-- ---------------------------------------------------------------------------
-- Directories
-- ---------------------------------------------------------------------------

theorem run_makeDir (p : Path) (d : Disk) :
    (FileAccess.makeDir p : StateM Disk (Except FileFault Unit)).run d = d.change (d.makeDir p) := rfl

theorem ensureDir_after (p : Path) (d : Disk) :
    ((ensureDir p : StateM Disk (Except FileFault Unit)).run d).2 = d ∨
      d.makeDir p = .ok ((ensureDir p : StateM Disk (Except FileFault Unit)).run d).2 := by
  rw [ensureDir, StateT.run_bind, run_makeDir]
  cases d.makeDir p with
  | ok after => exact .inr rfl
  | error fault => cases fault <;> exact .inl rfl

section
variable {R : Disk → Disk → Prop} [IsPreorder Disk R] {p : Path}

theorem ensureDir_related (hmake : ∀ d after, d.makeDir p = .ok after → R d after) (d : Disk) :
    R d ((ensureDir p : StateM Disk (Except FileFault Unit)).run d).2 := by
  rcases ensureDir_after p d with hsame | hmade
  · rw [hsame]
    exact refl d
  · exact hmake d _ hmade

theorem keeps_lift_ensureDir (hmake : ∀ d after, d.makeDir p = .ok after → R d after) :
    Keeps R (ExceptT.lift (ensureDir p) : Action (StateM Disk) (Except FileFault Unit)) :=
  fun d => .of_ok (on_lift (ensureDir p) d) (ensureDir_related hmake d)

theorem keeps_onFile_ensureDir (hmake : ∀ d after, d.makeDir p = .ok after → R d after) :
    Keeps R (onFile (ensureDir p) : Action (StateM Disk) Unit) := by
  intro d
  have hkeeps := ensureDir_related hmake d
  unfold Triple onFile on ExceptT.mk ExceptT.run
  rw [StateT.run_bind]
  rcases hrun : (ensureDir p : StateM Disk (Except FileFault Unit)).run d with ⟨made, after⟩
  rw [hrun] at hkeeps
  cases made <;> exact hkeeps

theorem keeps_ensureDirs {paths : List Path}
    (hmake : ∀ p ∈ paths, ∀ d after, d.makeDir p = .ok after → R d after) :
    Keeps R (ensureDirs paths : Action (StateM Disk) Unit) := by
  induction paths with
  | nil => exact keeps_pure ()
  | cons p above ih =>
    obtain ⟨hp, habove⟩ := List.forall_mem_cons.mp hmake
    refine (keeps_lift_ensureDir hp).bind fun made => ?_
    match made with
    | .ok () => exact keeps_pure ()
    | .error .noEntry => exact (ih habove).bind fun _ => keeps_onFile_ensureDir hp
    | .error .exists => exact keeps_throw _
    | .error .notDirectory => exact keeps_throw _
    | .error .isDirectory => exact keeps_throw _
    | .error .notUtf8 => exact keeps_throw _
    | .error (.other _) => exact keeps_throw _

/-- What making one directory keeps is kept when a path is made with all that is above it. -/
theorem keeps_makeDirs (hmake : ∀ q ∈ p :: p.above, ∀ d after, d.makeDir q = .ok after → R d after) :
    Keeps R (makeDirs p : Action (StateM Disk) Unit) := by
  unfold makeDirs
  split
  · exact keeps_pure ()
  · exact keeps_ensureDirs hmake

end

-- ---------------------------------------------------------------------------
-- Questions
-- ---------------------------------------------------------------------------

theorem keeps_ofExcept (result : Except Error α) :
    Keeps Eq (ofExcept result : Action (StateM Disk) α) := by
  intro d
  cases result with
  | ok a => exact .of_ok rfl rfl
  | error e => exact .of_error rfl rfl

theorem fileExists_triple (p : Path) (d : Disk) :
    Triple (fileExists p) d (fun found after => found = (d.look p).isOk ∧ d = after) E :=
  .of_ok (on_fileExists p d) ⟨rfl, rfl⟩

theorem keeps_fileExists (p : Path) : Keeps Eq (fileExists p : Action (StateM Disk) Bool) :=
  fun _ => .of_ok rfl rfl

theorem keeps_readText (p : Path) : Keeps Eq (readText p : Action (StateM Disk) String) := by
  have hread : Keeps Eq (onFile (FileAccess.readFile p) : Action (StateM Disk) (List UInt8)) := by
    intro d
    have hon := on_readFile p d
    cases hdisk : d.read p with
    | ok content => exact .of_ok (hon.trans (by rw [hdisk])) rfl
    | error fault => exact .of_error (hon.trans (by rw [hdisk])) rfl
  refine hread.bind fun bytes => ?_
  cases Text.decode? bytes with
  | some cs => exact keeps_pure _
  | none => exact keeps_throw _

end Action

end RestQuery

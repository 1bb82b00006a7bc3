import RestQuery.Proofs.Files.DiskLaws
import RestQuery.Text.Utf8.Lemmas

/-!
# Actions on a disk

What an action returns on a disk and the disk that it leaves. A chain of actions
goes on where the one before left the disk, and ends with the first that fails.
-/

namespace RestQuery.Action

variable {α β : Type} {d after : Disk} {p : Path}

def on (act : Action (StateM Disk) α) (d : Disk) : Except Error α × Disk := act.run.run d

theorem on_bind (act : Action (StateM Disk) α) (f : α → Action (StateM Disk) β) (d : Disk) :
    (act >>= f).on d =
      match act.on d with
      | (.ok a, after) => (f a).on after
      | (.error e, after) => (.error e, after) := by
  unfold on
  rw [ExceptT.run_bind, StateT.run_bind]
  rcases act.run.run d with ⟨outcome, after⟩
  cases outcome <;> rfl

theorem on_lift (act : StateM Disk α) (d : Disk) :
    on (ExceptT.lift act) d = (.ok (act.run d).1, (act.run d).2) := rfl

theorem on_ofExcept (result : Except Error α) (d : Disk) :
    (ofExcept result : Action (StateM Disk) α).on d = (result, d) := rfl

theorem on_fileExists (p : Path) (d : Disk) :
    (fileExists p : Action (StateM Disk) Bool).on d = (.ok (d.look p).isOk, d) := rfl

theorem on_writeFile (p : Path) (content : List UInt8) (d : Disk) :
    (onFile (FileAccess.writeFile p content) : Action (StateM Disk) Unit).on d =
      match d.write p content with
      | .ok after => (.ok (), after)
      | .error fault => (.error (.file fault), d) := by
  have hrun : (FileAccess.writeFile p content : StateM Disk (Except FileFault Unit)).run d =
      d.change (d.write p content) := rfl
  unfold onFile on ExceptT.mk ExceptT.run
  rw [StateT.run_bind, hrun]
  cases d.write p content <;> rfl

theorem on_readFile (p : Path) (d : Disk) :
    (onFile (FileAccess.readFile p) : Action (StateM Disk) (List UInt8)).on d =
      match d.read p with
      | .ok content => (.ok content, d)
      | .error fault => (.error (.file fault), d) := by
  have hrun : (FileAccess.readFile p : StateM Disk (Except FileFault (List UInt8))).run d =
      (d.read p, d) := rfl
  unfold onFile on ExceptT.mk ExceptT.run
  rw [StateT.run_bind, hrun]
  cases d.read p <;> rfl

theorem on_readText {text : String} (h : d.read p = .ok (Text.utf8 text.toList)) :
    (readText p : Action (StateM Disk) String).on d = (.ok text, d) := by
  rw [readText, on_bind, on_readFile, h]
  simp only [Text.decode?_utf8, String.ofList_toList]
  rfl

end RestQuery.Action

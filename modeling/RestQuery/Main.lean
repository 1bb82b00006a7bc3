import RestQuery.Command

/-!
# The program `qs`

The command line on the real file system. All that it decides is decided in
`RestQuery.Command`.
-/

namespace RestQuery

def FileFault.ofSystem (e : IO.Error) : FileFault :=
  match e with
  | .noFileOrDirectory .. => .noEntry
  | .alreadyExists .. => .exists
  | .inappropriateType _ code _ => ofCode code
  | .resourceBusy code _ | .otherError code _ => ofCode code
  | _ => .other (toString e)
where
  ofCode (code : UInt32) : FileFault :=
    if code = 2 then .noEntry
    else if code = 17 then .exists
    else if code = 20 then .notDirectory
    else if code = 21 then .isDirectory
    else .other (toString e)

def attempt (act : IO α) : IO (Except FileFault α) := do
  try return .ok (← act) catch e => return .error (.ofSystem e)

instance : FileAccess IO where
  fileExists p := return (← attempt (IO.FS.Handle.mk p.text .read)).isOk
  isDirectory p := return (← attempt (IO.FS.readBinFile p.text)) matches .error .isDirectory
  readFile p := attempt (return (← IO.FS.readBinFile p.text).data.toList)
  writeFile p content := attempt (IO.FS.writeBinFile p.text ⟨content.toArray⟩)
  makeDir p := attempt (IO.FS.createDir p.text)

end RestQuery

def main (arguments : List String) : IO UInt32 := do
  let env : RestQuery.Environment :=
    { root? := ← IO.getEnv "EDGEQ_ROOT"
      dataHome? := ← IO.getEnv "XDG_DATA_HOME"
      home? := ← IO.getEnv "HOME" }
  let outcome ← RestQuery.Command.run env arguments
  IO.print outcome.output
  IO.eprint outcome.errors
  return outcome.exitCode.toUInt32
